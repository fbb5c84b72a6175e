import CostCatalog.Command.Parameter
import CostCatalog.Proofs.Edits
import CostCatalog.Proofs.Program.Disciplines
import CostCatalog.Proofs.Program.Runs
import CostCatalog.Proofs.Samples
import CostCatalog.Proofs.Store

/-!
# Making the same entry many times at once

A command that makes an entry looks whether its code is taken and inserts after that; in between
another command may have inserted. The store has the last word, and the look after its refusal finds
the code taken. So of commands that make the same entry side by side exactly one succeeds, and no
other fails for another reason, `create_side_by_side`.

Each command goes through phases of its own; `Contest` is what the phases of all of them and the
store have to do with each other.
-/

namespace CostCatalog.Command

variable {k : Kind}

/-! ## Commands that make entries -/

/-- The commands that make an entry of a kind. -/
abbrev Creation : Kind → Type
  | .uom => CreateUom
  | .parameter => CreateParameter

/-- Makes a new entry. -/
def create : {k : Kind} → Repository k → Creation k → Action (Entry k)
  | .uom, repo, cmd => createUom repo cmd
  | .parameter, repo, cmd => createParameter repo cmd

/-- The unit that a command makes at a time, or the rule that it breaks. -/
def CreateUom.build (cmd : CreateUom) (now : Timestamp) : Except Fault Uom := do
  let code ← Code.parse .uom (.str cmd.code)
  let category ← Category.parse .uom (.str cmd.category)
  let u ← Uom.create code cmd.name category cmd.createdBy now
  .ok (if cmd.isBase then u.markBase else u)

/-- The parameter that a command makes at a time, or the rule that it breaks. -/
def CreateParameter.build (cmd : CreateParameter) (now : Timestamp) : Except Fault Parameter := do
  let code ← Code.parse .parameter (.str cmd.code)
  let category ← Category.parse .parameter (.str cmd.category)
  let dataType ← DataType.parse (.str cmd.dataType)
  let p ← Parameter.create code cmd.name category dataType cmd.createdBy now
  p.editAll now cmd.fields.edits

/-- The entry that a command makes at a time, or the rule that it breaks. -/
def Creation.build : {k : Kind} → Creation k → Timestamp → Except Fault (Entry k)
  | .uom, cmd, now => CreateUom.build cmd now
  | .parameter, cmd, now => CreateParameter.build cmd now

/-- The code that a command names. -/
def Creation.codeText : {k : Kind} → Creation k → String
  | .uom, cmd => CreateUom.code cmd
  | .parameter, cmd => CreateParameter.code cmd

/-- A command names a code and breaks no rule, whatever the time. -/
structure Creation.Passes (cmd : Creation k) (c : Code k) : Prop where
  codeText : cmd.codeText = c.text
  builds : ∀ now, ∃ e, cmd.build now = .ok e

/-- What a command does that makes an entry with a code. -/
def making (repo : Repository k) (c : Code k) (build : Timestamp → Except Fault (Entry k)) :
    Action (Entry k) := do
  if ← repo.contains c then Action.fail (.ofRule (.alreadyExists k))
  else
    let now ← Action.now
    let e ← Action.ofExcept (build now)
    repo.create e
    Action.log (doneRecord k c "created")
    pure e

private theorem ofExcept_map_bind {α β γ : Type} (x : Except Fault α) (f : α → β) (g : β → Action γ) :
    (Action.ofExcept (x.map f) >>= g) = (Action.ofExcept x >>= fun a => g (f a)) := by
  cases x <;> rfl

theorem ofExcept_bind {α β γ : Type} (x : Except Fault α) (f : α → Except Fault β)
    (g : β → Action γ) : (Action.ofExcept (x >>= f) >>= g) =
      (Action.ofExcept x >>= fun a => Action.ofExcept (f a) >>= g) := by
  cases x <;> rfl

/-- Making a unit is reading its texts, and making the entry. -/
theorem createUom_eq (repo : Repository .uom) (cmd : CreateUom) : createUom repo cmd = (do
    let c ← Action.ofExcept (Code.parse .uom (.str cmd.code))
    let category ← Action.ofExcept (Category.parse .uom (.str cmd.category))
    making repo c fun now =>
      (Uom.create c cmd.name category cmd.createdBy now).map fun u =>
        if cmd.isBase then u.markBase else u) := by
  unfold createUom making
  simp only [ofExcept_map_bind]

/-- Reading the texts of a command on a parameter, and what is done with what they spell. -/
def readingTexts {α : Type} (code category dataType : String)
    (f : Code .parameter → ParameterCategory → DataType → Action α) : Action α := do
  let code ← Action.ofExcept (Code.parse .parameter (.str code))
  let category ← Action.ofExcept (Category.parse .parameter (.str category))
  let dataType ← Action.ofExcept (DataType.parse (.str dataType))
  f code category dataType

/-- Making a parameter is reading its texts, and making the entry. -/
theorem createParameter_eq (repo : Repository .parameter) (cmd : CreateParameter) :
    createParameter repo cmd = readingTexts cmd.code cmd.category cmd.dataType
      fun c category dataType => making repo c fun now =>
        Parameter.create c cmd.name category dataType cmd.createdBy now >>= fun p =>
          p.editAll now cmd.fields.edits := by
  unfold createParameter readingTexts making
  simp only [ofExcept_bind]

/-- What a command makes of a unit, once its code and category are read. -/
theorem CreateUom.build_eq {cmd : CreateUom} {c : Code .uom}
    (h : Creation.Passes (k := .uom) cmd c) : Code.parse .uom (.str cmd.code) = .ok c ∧
    ∃ category, Category.parse .uom (.str cmd.category) = .ok category ∧
      cmd.build = fun now => (Uom.create c cmd.name category cmd.createdBy now).map fun u =>
        if cmd.isBase then u.markBase else u := by
  obtain ⟨e, he⟩ := h.builds .epoch
  have hcode : Code.parse .uom (.str cmd.code) = .ok c := Code.parse_of_text h.codeText
  change CreateUom.build cmd .epoch = .ok e at he
  unfold CreateUom.build at he
  obtain ⟨code, -, he⟩ := bind_ok he
  obtain ⟨category, hcategory, -⟩ := bind_ok he
  refine ⟨hcode, category, hcategory, ?_⟩
  funext now
  unfold CreateUom.build
  rw [hcode, hcategory]
  show (Uom.create c cmd.name category cmd.createdBy now >>= fun u => .ok _) = _
  cases Uom.create c cmd.name category cmd.createdBy now <;> rfl

/-- What a command makes of a parameter, once its code, category and data type are read. -/
theorem CreateParameter.build_eq {cmd : CreateParameter} {c : Code .parameter}
    (h : Creation.Passes (k := .parameter) cmd c) :
    Code.parse .parameter (.str cmd.code) = .ok c ∧
    ∃ category dataType, Category.parse .parameter (.str cmd.category) = .ok category ∧
      DataType.parse (.str cmd.dataType) = .ok dataType ∧
      cmd.build = fun now =>
        Parameter.create c cmd.name category dataType cmd.createdBy now >>= fun p =>
          p.editAll now cmd.fields.edits := by
  obtain ⟨e, he⟩ := h.builds .epoch
  have hcode : Code.parse .parameter (.str cmd.code) = .ok c := Code.parse_of_text h.codeText
  change CreateParameter.build cmd .epoch = .ok e at he
  unfold CreateParameter.build at he
  obtain ⟨code, -, he⟩ := bind_ok he
  obtain ⟨category, hcategory, he⟩ := bind_ok he
  obtain ⟨dataType, hdataType, -⟩ := bind_ok he
  refine ⟨hcode, category, dataType, hcategory, hdataType, ?_⟩
  funext now
  unfold CreateParameter.build
  rw [hcode, hcategory, hdataType]
  rfl

/-- A command that passes does nothing else. -/
theorem create_eq_making {cmd : Creation k} {c : Code k} (h : cmd.Passes c)
    (repo : Repository k) : create repo cmd = making repo c cmd.build := by
  cases k with
  | uom =>
    obtain ⟨hcode, category, hcategory, hbuild⟩ := CreateUom.build_eq h
    show createUom repo cmd = making repo c (CreateUom.build cmd)
    rw [createUom_eq, hcode, hcategory, hbuild]
    rfl
  | parameter =>
    obtain ⟨hcode, category, dataType, hcategory, hdataType, hbuild⟩ := CreateParameter.build_eq h
    show createParameter repo cmd = making repo c (CreateParameter.build cmd)
    rw [createParameter_eq, readingTexts, hcode, hcategory, hdataType, hbuild]
    rfl

/-- The entry has the code that the command names. -/
private theorem code_build {cmd : Creation k} {c : Code k} (h : cmd.Passes c) {now : Timestamp}
    {e : Entry k} (he : cmd.build now = .ok e) : e.code = c := by
  cases k with
  | uom =>
    obtain ⟨-, category, -, hbuild⟩ := CreateUom.build_eq h
    change CreateUom.build cmd now = .ok e at he
    rw [hbuild] at he
    dsimp only at he
    cases hu : Uom.create c (CreateUom.name cmd) category (CreateUom.createdBy cmd) now with
    | error f => rw [hu] at he; cases he
    | ok u =>
      rw [hu] at he
      cases he
      have hcode := Uom.code_create hu
      show Uom.code (if CreateUom.isBase cmd then u.markBase else u) = c
      split <;> exact hcode
  | parameter =>
    obtain ⟨-, category, dataType, -, -, hbuild⟩ := CreateParameter.build_eq h
    change CreateParameter.build cmd now = .ok e at he
    rw [hbuild] at he
    obtain ⟨p, hp, he⟩ := bind_ok he
    exact (Parameter.code_editAll he).trans (Parameter.code_create hp)

/-! ## Phases -/

/-- How far a command is that makes an entry: it has not looked yet; it found the code free; its
entry was refused; its entry was stored; it found the code taken. -/
inductive Making where
  | fresh
  | cleared
  | refused
  | won (k : Kind) (e : Entry k)
  | lost

namespace Making

/-- What is asked in a phase, and what may be inserted. -/
def May (c : Code k) (admits : Entry k → Prop) (g : Making) (r : Request) : Prop :=
  (∃ record, r = .log record) ∨
    match g with
    | .fresh | .refused => r = .contains k c
    | .cleared => r = .now ∨ ∃ e, r = .insert k e ∧ e.code = c ∧ admits e
    | .won _ _ | .lost => False

/-- What is relied on: only a constraint refuses an entry, and after that the code is there. -/
def Relies (g : Making) : (r : Request) → r.Reply → Prop
  | .contains _ _, reply => ∃ b, reply = .ok b ∧ (g = .refused → b = true)
  | .insert _ _, reply => reply = .ok () ∨ ∃ detail, reply = .error (.integrity detail)
  | _, _ => True

/-- The next phase. -/
def after : Making → (r : Request) → r.Reply → Making
  | .fresh, .contains _ _, .ok true => .lost
  | .fresh, .contains _ _, _ => .cleared
  | .refused, .contains _ _, _ => .lost
  | .cleared, .insert k e, .ok () => .won k e
  | .cleared, .insert _ _, .error _ => .refused
  | g, _, _ => g

/-- How a command ends: with the entry that it built and stored, or finding the code taken. -/
def Ends (cmd : Creation k) (x : Except Fault (Entry k)) (g : Making) : Prop :=
  (∃ e now, x = .ok e ∧ cmd.build now = .ok e ∧ g = .won k e) ∨
    x = .error (.ofRule (.alreadyExists k)) ∧ g = .lost

end Making

/-- The discipline of commands that make an entry with a code. -/
def makings (c : Code k) (admits : Entry k → Prop) : Discipline Making where
  may := Making.May c admits
  relies g r reply := g.Relies r reply
  after := Making.after
  may_log _ r := Or.inl ⟨r, rfl⟩
  after_log g _ := by cases g <;> rfl

variable {c : Code k} {admits : Entry k → Prop}

theorem follows_storedCreate {e : Entry k} (hcode : e.code = c) (he : admits e) :
    (Repository.storedCreate k e).Follows (makings c admits)
      (fun x g => x = .ok () ∧ g = .won k e ∨
        x = .error (.ofRule (.alreadyExists k)) ∧ g = .lost) .cleared := by
  refine Action.follows_ask (Or.inr (Or.inr ⟨e, rfl, hcode, he⟩)) ?_
  intro reply hreply
  rcases hreply with rfl | ⟨detail, rfl⟩
  · exact Action.follows_pure (Or.inl ⟨rfl, rfl⟩)
  · apply Action.follows_report_bind
    show (do
      if ← Repository.storedContains k e.code then Action.fail (.ofRule (.alreadyExists k))
      else Action.fail _ : Action Unit).Follows (makings c admits) _ .refused
    apply Action.follows_bind (fun x g => x = .ok true ∧ g = .lost)
    · apply Action.follows_ask (Or.inr (hcode ▸ rfl))
      intro reply hreply
      obtain ⟨b, rfl, hb⟩ := hreply
      rw [hb rfl]
      exact Action.follows_settle ⟨rfl, rfl⟩
    · rintro b g ⟨hb, rfl⟩
      cases hb
      exact Action.follows_fail (Or.inr ⟨rfl, rfl⟩)
    · rintro f g ⟨hf, -⟩
      cases hf

/-- A command that passes looks, inserts what it builds, and looks again if that is refused. -/
private theorem follows_create {cmd : Creation k} (hpasses : cmd.Passes c)
    (hadmits : ∀ now e, cmd.build now = .ok e → admits e) :
    (create (Repository.stored k) cmd).Follows (makings c admits) (Making.Ends cmd) .fresh := by
  rw [create_eq_making hpasses]
  refine Action.follows_bind (fun x g => x = .ok true ∧ g = .lost ∨
    x = .ok false ∧ g = .cleared) ?_ ?_ ?_
  · apply Action.follows_ask (Or.inr rfl)
    intro reply hreply
    obtain ⟨b, rfl, -⟩ := hreply
    cases b with
    | true => exact Action.follows_settle (Or.inl ⟨rfl, rfl⟩)
    | false => exact Action.follows_settle (Or.inr ⟨rfl, rfl⟩)
  · rintro b g (⟨hb, rfl⟩ | ⟨hb, rfl⟩)
    · cases hb
      exact Action.follows_fail (Or.inr ⟨rfl, rfl⟩)
    · cases hb
      apply Action.follows_ask (Or.inr (Or.inl rfl))
      intro now _
      obtain ⟨e, he⟩ := hpasses.builds now
      show (Action.ofExcept (cmd.build now) >>= _).Follows _ _ Making.cleared
      rw [he]
      show (Repository.storedCreate k e >>= _).Follows _ _ Making.cleared
      refine Action.follows_bind _ (follows_storedCreate (code_build hpasses he) (hadmits now e he))
        ?_ ?_
      · intro _ g hg
        rcases hg with ⟨-, rfl⟩ | ⟨hg, -⟩
        · exact Action.follows_log_bind (Action.follows_pure (Or.inl ⟨e, now, rfl, he, rfl⟩))
        · cases hg
      · intro f g hg
        rcases hg with ⟨hg, -⟩ | ⟨hf, rfl⟩
        · cases hg
        · cases hf
          exact Or.inr ⟨rfl, rfl⟩
  · rintro f g (⟨hf, -⟩ | ⟨hf, -⟩) <;> cases hf

/-! ## A code that is taken -/

/-- While a code is taken nothing is stored under it, and no command wins that has not won yet. -/
theorem answer_of_taken {w : World} (htaken : w.store.IsTaken c) {g : Making} {r : Request}
    (hmay : g.May c admits r) : g.Relies r (w.answer r).1 ∧ (w.answer r).2.store = w.store ∧
      ∀ j e, g.after r (w.answer r).1 = .won j e ↔ g = .won j e := by
  obtain ⟨t, hwritable, hcontains⟩ := htaken
  have hlook : w.answer (.contains k c) = (.ok true, w) := by
    rw [← hcontains, ← Store.contains_of_writable hwritable c]
    rfl
  rcases hmay with ⟨record, rfl⟩ | hmay
  · refine ⟨trivial, rfl, ?_⟩
    intro j e
    cases g <;> exact Iff.rfl
  · cases g with
    | fresh =>
      cases hmay
      rw [hlook]
      exact ⟨⟨true, rfl, fun _ => rfl⟩, rfl, fun j e =>
        iff_of_false (fun h => nomatch h) fun h => nomatch h⟩
    | refused =>
      cases hmay
      rw [hlook]
      exact ⟨⟨true, rfl, fun _ => rfl⟩, rfl, fun j e =>
        iff_of_false (fun h => nomatch h) fun h => nomatch h⟩
    | cleared =>
      rcases hmay with rfl | ⟨e, rfl, rfl, -⟩
      · exact ⟨trivial, rfl, fun j e => Iff.rfl⟩
      · rw [World.answer_insert_error (Store.insert_of_taken hwritable hcontains)]
        exact ⟨Or.inr ⟨_, rfl⟩, rfl, fun j e =>
          iff_of_false (fun h => nomatch h) fun h => nomatch h⟩
    | won j e => exact hmay.elim
    | lost => exact hmay.elim

/-! ## The contest -/

variable {ι : Type}

/-- No command has won but those of some index. -/
def OnlyWins (phases : ι → Making) (winner : ι → Prop) : Prop :=
  ∀ i k e, phases i = .won k e → winner i

/-- How a contest for a free code stands: nobody has inserted yet, or one command has won and the
store has changed by its entry. -/
inductive Contest (s : Store) (c : Code k) (phases : ι → Making) (w : World) : Prop where
  | undecided (store : w.store = s) (early : ∀ i, phases i = .fresh ∨ phases i = .cleared)
  | decided (i : ι) (e : Entry k) (stored : s.insert e = .ok w.store) (taken : w.store.IsTaken c)
    (found : w.store.find c = .ok (some e.inserted)) (won : phases i = .won k e)
    (unique : OnlyWins phases (· = i))

/-- Commands side by side, each before its first step. -/
def creations (cmds : ι → Creation k) (w : World) : Pool ι (Except Fault (Entry k)) :=
  .ofActions (fun i => create (Repository.stored k) (cmds i)) w

/-- One command ended with the entry that it built, which was stored; all others found the code
taken. -/
structure WonBy (cmds : ι → Creation k) (c : Code k) (s : Store)
    (final : Pool ι (Except Fault (Entry k))) (i : ι) (e : Entry k) : Prop where
  winner : final.programs i = .done (.ok e)
  built : ∃ now, (cmds i).build now = .ok e
  others : ∀ j, j ≠ i → final.programs j = .done (.error (.ofRule (.alreadyExists k)))
  stored : s.insert e = .ok final.world.store
  found : final.world.store.find c = .ok (some e.inserted)

/-- All commands found the code taken, and the store is as it was. -/
structure AllRefused (k : Kind) (s : Store) (final : Pool ι (Except Fault (Entry k))) : Prop where
  refused : ∀ j, final.programs j = .done (.error (.ofRule (.alreadyExists k)))
  unchanged : final.world.store = s

/-- A command that has not won, and is done, found the code taken. -/
theorem refused_of_not_won {p : Pool ι (Except Fault (Entry k))} {cmds : ι → Creation k}
    {phases : ι → Making}
    (hp : p.Follows (makings c admits) (fun i => Making.Ends (cmds i)) phases) (hdone : p.Finished)
    {j : ι} (hj : ∀ e, phases j ≠ .won k e) :
    p.programs j = .done (.error (.ofRule (.alreadyExists k))) := by
  obtain ⟨x, hx⟩ := hdone j
  rcases hp.ended hx with ⟨e, -, -, -, hwon⟩ | ⟨hrefused, -⟩
  · exact absurd hwon (hj e)
  · rw [hx, hrefused]

/-! ## Steps of the contest -/

variable [DecidableEq ι]

/-- A phase that is no win, or a win of before, makes no new winner. -/
theorem OnlyWins.update {phases : ι → Making} {winner : ι → Prop} (h : OnlyWins phases winner)
    {i : ι} {g : Making} (hg : ∀ k e, g = .won k e → winner i) :
    OnlyWins (Function.update phases i g) winner := by
  intro j k e hj
  by_cases hji : j = i
  · subst hji
    rw [Function.update_self] at hj
    exact hg k e hj
  · rw [Function.update_of_ne hji] at hj
    exact h j k e hj

/-- One reply leaves a code that is taken as it is, and makes no winner. -/
theorem taken_kept {s : Store} (htaken : s.IsTaken c) :
    Pool.Kept (makings c admits) (fun (phases : ι → Making) w => w.store = s ∧
      OnlyWins phases fun _ => False) (fun _ => True) := by
  rintro phases w i r ⟨rfl, hnone⟩ hmay -
  obtain ⟨hrelies, hsame, hafter⟩ := answer_of_taken htaken hmay
  exact ⟨hrelies, hsame, hnone.update fun j e h => hnone i j e ((hafter j e).mp h)⟩

/-- One reply keeps the contest for a free code. -/
theorem contest_kept {s : Store} {t : Table k} (hwritable : s.writable k = .ok t)
    (hfree : t.contains c = false) (href : ∀ e, admits e → s.referenceHolds e = true) :
    Pool.Kept (makings c admits) (Contest (ι := ι) s c) (fun _ => True) := by
  intro phases w i r hcontest hmay _
  cases hcontest with
  | undecided hstore hearly =>
    subst hstore
    have hstill {g : Making} (hg : g = .fresh ∨ g = .cleared) (j : ι) :
        Function.update phases i g j = .fresh ∨ Function.update phases i g j = .cleared := by
      by_cases hj : j = i
      · rw [hj, Function.update_self]
        exact hg
      · rw [Function.update_of_ne hj]
        exact hearly j
    rcases hmay with ⟨record, rfl⟩ | hmay
    · refine ⟨trivial, .undecided rfl (hstill ?_)⟩
      rcases hearly i with hi | hi <;> rw [hi]
      · exact Or.inl rfl
      · exact Or.inr rfl
    · rcases hearly i with hi | hi
      · rw [hi] at hmay ⊢
        cases hmay
        have hlook : w.answer (.contains k c) = (.ok false, w) := by
          rw [← hfree, ← Store.contains_of_writable hwritable c]
          rfl
        rw [hlook]
        exact ⟨⟨false, rfl, fun h => nomatch h⟩, .undecided rfl (hstill (Or.inr rfl))⟩
      · rw [hi] at hmay ⊢
        rcases hmay with rfl | ⟨e, rfl, rfl, he⟩
        · exact ⟨trivial, .undecided rfl (hstill (Or.inr rfl))⟩
        · obtain ⟨t', hinsert, hfound⟩ := Store.insert_of_free hwritable hfree (href e he)
          have hwritable' := Store.writable_withTable hwritable t'
          rw [World.answer_insert_ok hinsert]
          refine ⟨Or.inl rfl, .decided i e hinsert ⟨t', hwritable', ?_⟩ ?_
            (Function.update_self ..) ?_⟩
          · rw [Table.contains, hfound]
            rfl
          · exact (Store.find_of_writable hwritable' e.code).trans (congrArg _ hfound)
          · refine OnlyWins.update ?_ fun _ _ _ => rfl
            intro j k' e' hj
            rcases hearly j with h | h <;> rw [h] at hj <;> cases hj
  | decided i' e hstored htaken hfound hwon hunique =>
    obtain ⟨hrelies, hsame, hafter⟩ := answer_of_taken htaken hmay
    rw [← hsame] at hstored htaken hfound
    refine ⟨hrelies, .decided i' e hstored htaken hfound ?_
      (hunique.update fun j e' h => hunique i j e' ((hafter j e').mp h))⟩
    by_cases hi : i' = i
    · subst hi
      rw [Function.update_self]
      exact (hafter k e).mpr hwon
    · rw [Function.update_of_ne hi]
      exact hwon

/-! ## Outcomes -/

/-- Commands that make an entry with the same code, side by side in any order of their steps. If the
code is free exactly one of them makes its entry, which is then stored, and every other one finds the
code taken; if it is taken all of them find so. -/
theorem create_side_by_side [Nonempty ι] (cmds : ι → Creation k) (turns : List (Turn ι)) {w : World}
    {t : Table k} (hwritable : w.store.writable k = .ok t) (hpasses : ∀ i, (cmds i).Passes c)
    (href : ∀ i now e, (cmds i).build now = .ok e → w.store.referenceHolds e = true)
    (hdone : ((creations cmds w).run turns).Finished) :
    (t.find? c = none → ∃ i e, WonBy cmds c w.store ((creations cmds w).run turns) i e) ∧
      (∀ row, t.find? c = some row → AllRefused k w.store ((creations cmds w).run turns)) := by
  have hp : (creations cmds w).Follows (makings c fun e => w.store.referenceHolds e = true)
      (fun i => Making.Ends (cmds i)) (fun _ => .fresh) :=
    fun i => follows_create (hpasses i) (href i)
  have hany := Pool.always_of_forall (p := creations cmds w) (fun _ => trivial) turns
  constructor
  · intro hnone
    have hfree : t.contains c = false := by rw [Table.contains, hnone]; rfl
    obtain ⟨phases, hp', hcontest⟩ := Pool.run_follows
      (contest_kept hwritable hfree fun e he => he) turns
      (fun _ _ _ _ h => by cases h with
        | undecided hs he => exact .undecided hs he
        | decided i e hs ht hf hw hu => exact .decided i e hs ht hf hw hu)
      hp (.undecided rfl fun _ => Or.inl rfl) hany
    cases hcontest with
    | undecided _ hearly =>
      -- Somebody is there, is done, and so has got further than this.
      obtain ⟨i⟩ := ‹Nonempty ι›
      obtain ⟨x, hx⟩ := hdone i
      rcases hp'.ended hx with ⟨e, -, -, -, hwon⟩ | ⟨-, hlost⟩
      · rcases hearly i with h | h <;> rw [h] at hwon <;> cases hwon
      · rcases hearly i with h | h <;> rw [h] at hlost <;> cases hlost
    | decided i e hstored htaken hfound hwon hunique =>
      obtain ⟨x, hx⟩ := hdone i
      rcases hp'.ended hx with ⟨e', now, rfl, hbuilt, hwon'⟩ | ⟨-, hlost⟩
      · rw [hwon] at hwon'
        cases hwon'
        exact ⟨i, e, hx, ⟨now, hbuilt⟩, fun j hj =>
          refused_of_not_won hp' hdone fun e' hj' => hj (hunique j k e' hj'), hstored, hfound⟩
      · rw [hwon] at hlost
        cases hlost
  · intro row hrow
    have htaken : w.store.IsTaken c := ⟨t, hwritable, by rw [Table.contains, hrow]; rfl⟩
    obtain ⟨phases, hp', hsame, hnone⟩ := Pool.run_follows (taken_kept htaken) turns
      (fun _ _ _ _ h => h) hp ⟨rfl, fun _ _ _ h => by cases h⟩ hany
    exact ⟨fun j => refused_of_not_won hp' hdone fun e h => hnone j k e h, hsame⟩

/-- Two commands both find the code free before one of them stores its unit. -/
theorem create_side_by_side_two :
    ((creations (k := .uom) Sample.makers (Sample.world "")).run Sample.bothLook).Finished ∧
      ∃ i e, WonBy (k := .uom) Sample.makers (Sample.kilogram "").code (Sample.world "").store
        ((creations (k := .uom) Sample.makers (Sample.world "")).run Sample.bothLook) i e := by
  have hdone : ((creations (k := .uom) Sample.makers (Sample.world "")).run
      Sample.bothLook).Finished
    | 0 => ⟨_, rfl⟩
    | 1 => ⟨_, rfl⟩
  have hpasses : ∀ i, Creation.Passes (k := .uom) (Sample.makers i) (Sample.kilogram "").code
    | 0 => ⟨rfl, fun _ => ⟨_, rfl⟩⟩
    | 1 => ⟨rfl, fun _ => ⟨_, rfl⟩⟩
  exact ⟨hdone, (create_side_by_side (k := .uom) Sample.makers Sample.bothLook rfl hpasses
    (fun _ _ _ _ => rfl) hdone).1 rfl⟩

end CostCatalog.Command
