import CostCatalog.Proofs.Command.Effects
import CostCatalog.Proofs.Program.Disciplines

/-!
# Changing and ending an entry step by step

A command that takes its steps among those of others has not taken effect, and left the row alone,
until the one step in which it does all that its effect says, `answer_pursuing`. What it found of the
row before is still true of the row then, as far as it matters: who made it, and when.
-/

namespace CostCatalog.Command

variable {k : Kind} {c : Code k} {holds : Entry k → Bool} {bound horizon : Nat}
variable {row : Option (Entry k)}

/-! ## Phases -/

/-- How far a command is: it has not asked anything; it has made a draft of a row that it found, of
which the audit fields are kept; it has taken effect, with a result up to times of change. -/
inductive Phase (k : Kind) where
  | fresh (course : Course k)
  | loaded (d : Entry k) (a : Audit)
  | settled (x : Except Fault (Option (Entry k)))

/-- The first phase of a course. -/
def Course.start : Course k → Phase k
  | .refused f => .settled (.error f)
  | course => .fresh course

theorem Course.start_of_ne {course : Course k} (h : ∀ f, course ≠ .refused f) :
    course.start = .fresh course := by
  cases course with
  | refused f => exact absurd rfl (h f)
  | delete | update => rfl

namespace Phase

/-- What is asked in a phase. A change is stored with a time that the entry it was made of allows. -/
def May (c : Code k) (horizon : Nat) (g : Phase k) (r : Request) : Prop :=
  (∃ record, r = .log record) ∨
    match g with
    | .fresh (.update _) => r = .find k c
    | .fresh .delete => r = .delete k c
    | .fresh (.refused _) => False
    | .loaded d a => r = .now ∨ ∃ t, r = .update k (d.madeAs a (some t)) ∧ d.code = c ∧
        ∀ bound, horizon ≤ bound → a.Within bound → t.Within (bound + 1)
    | .settled _ => r = .now

/-- What is relied on: the clock reads a time up to the horizon, and an entry that is found has the
code and can be changed once more before the calendar ends. -/
def Relies (c : Code k) (horizon : Nat) : (r : Request) → r.Reply → Prop
  | .now, t => t.Within horizon
  | .find _ _, x => ∃ row, x = .ok row ∧
      ∀ e ∈ row, (Entry.code e).text = c.text ∧ (Entry.audit e).HasNext
  | _, _ => True

/-- The next phase. -/
def after : Phase k → (r : Request) → r.Reply → Phase k
  | .fresh (.update _), .find _ _, .ok none => .settled (.error (.ofRule (.notFound k)))
  | .fresh (.update (.error f)), .find _ _, .ok (some _) => .settled (.error f)
  | .fresh (.update (.ok d)), .find _ _, .ok (some e) => .loaded d (Entry.audit e)
  | .fresh .delete, .delete _ _, x => .settled (writeResult "delete" none x)
  | .loaded d a, .update _ _, x => .settled (writeResult "update" (some (d.madeAs a none)) x)
  | g, _, _ => g

/-- A command is done once it has taken effect. -/
def Ends (x : Except Fault (Option (Entry k))) (g : Phase k) : Prop := g = .settled (upToTime x)

end Phase

/-- The discipline of commands that change or end the entry with a code. -/
def amends (c : Code k) (horizon : Nat) : Discipline (Phase k) where
  may := Phase.May c horizon
  relies _ r reply := Phase.Relies c horizon r reply
  after := Phase.after
  may_log _ r := Or.inl ⟨r, rfl⟩
  after_log g _ := by
    cases g with
    | fresh course =>
      cases course with
      | update draft => cases draft <;> rfl
      | refused | delete => rfl
    | loaded | settled => rfl

theorem follows_storedFind (draft : Except Fault (Entry k)) :
    (Repository.storedFind k c).Follows (amends c horizon)
      (fun x g => x = .error (.ofRule (.notFound k)) ∧ g = .settled (.error (.ofRule (.notFound k))) ∨
        ∃ e, x = .ok e ∧ e.code = c ∧ (Entry.audit e).HasNext ∧
          match draft with
          | .error f => g = .settled (.error f)
          | .ok d => g = .loaded d (Entry.audit e))
      (.fresh (.update draft)) := by
  apply Action.follows_ask (Or.inr rfl)
  intro reply hreply
  obtain ⟨row, rfl, hrow⟩ := hreply
  refine Action.follows_settle_bind ?_ fun f hf => nomatch hf
  intro v hv
  cases hv
  cases row with
  | none => exact Action.follows_fail (Or.inl ⟨rfl, rfl⟩)
  | some e =>
    obtain ⟨hcode, hnext⟩ := hrow e rfl
    refine Action.follows_pure (Or.inr ⟨e, rfl, Code.ext_text hcode, hnext, ?_⟩)
    cases draft <;> rfl

/-- A statement that needs a row ends as it says whether there was one. -/
theorem follows_needRow {operation : String} {done : Option (Entry k)}
    (x : Except StoreFailure Bool) :
    Action.Follows (amends c horizon) (fun y g => g = .settled (y.map fun _ => done))
      (do Repository.needRow k (← Repository.settle operation x))
      (.settled (writeResult operation done x)) := by
  apply Action.follows_settle_bind
  · intro found hfound
    cases hfound
    cases found with
    | true => exact Action.follows_pure rfl
    | false => exact Action.follows_fail rfl
  · intro f hf
    cases hf
    rfl

theorem follows_storedUpdate {d : Entry k} {a : Audit} {t : Timestamp} (hcode : d.code = c)
    (ht : ∀ bound, horizon ≤ bound → a.Within bound → t.Within (bound + 1)) :
    (Repository.storedUpdate k (d.madeAs a (some t))).Follows (amends c horizon)
      (fun x g => g = .settled (x.map fun _ => some (d.madeAs a none))) (.loaded d a) :=
  Action.follows_ask (Or.inr (Or.inr ⟨t, rfl, hcode, ht⟩)) fun reply _ => follows_needRow reply

theorem follows_storedDelete :
    (Repository.storedDelete k c).Follows (amends c horizon)
      (fun x g => g = .settled (x.map fun _ => none)) (.fresh .delete) :=
  Action.follows_ask (Or.inr rfl) fun reply _ => follows_needRow reply

private theorem upToTime_ok {ε : Type} (d : Entry k) (a : Audit) (t : Option Timestamp) :
    upToTime (.ok (some (d.madeAs a t)) : Except ε (Option (Entry k))) =
      .ok (some (d.madeAs a none)) := by
  rw [upToTime, Except.map, Option.map_some, Entry.untimed_madeAs]

/-- A forgetful change takes effect when no row is found, when its draft is refused, or when it is
stored. -/
private theorem follows_revising {edit} {draft : Except Fault (Entry k)}
    (hedit : Forgetful c edit draft) : (do
      let e ← revising (Repository.stored k) c edit
      pure (some e)).Follows (amends c horizon) Phase.Ends (.fresh (.update draft)) := by
  refine Action.follows_bind (fun (x : Except Fault (Entry k)) g =>
    g = Phase.settled (upToTime (x.map some))) ?_
    (fun e g hg => Action.follows_pure hg) fun f g hg => hg
  apply Action.follows_bind _ (follows_storedFind draft)
  · intro e g hg
    rcases hg with ⟨hfound, -⟩ | ⟨e', hfound, hcode, hnext, hg⟩
    · cases hfound
    · cases hfound
      apply Action.follows_ask
      · cases draft with
        | error f => exact hg ▸ Or.inr rfl
        | ok d => exact hg ▸ Or.inr (Or.inl rfl)
      · intro now hnow
        have hmade := hedit now e hnow.aware hnext hcode
        show (Action.ofExcept (edit now e) >>= _).Follows _ _ _
        cases draft with
        | error f =>
          rw [hg, hmade]
          exact Action.follows_fail rfl
        | ok d =>
          obtain ⟨hd, t, hok, hbound⟩ := hmade
          rw [hg, hok]
          show (Repository.storedUpdate k _ >>= _).Follows _ _ (Phase.loaded d (Entry.audit e))
          refine Action.follows_bind _ (follows_storedUpdate hd fun bound hle ha =>
            hbound bound (hnow.mono hle) ha) ?_ fun f g hg => hg
          intro _ g hg
          refine Action.follows_log_bind (Action.follows_pure ?_)
          rw [hg]
          exact congrArg Phase.settled (upToTime_ok d (Entry.audit e) (some t)).symm
  · intro f g hg
    rcases hg with ⟨hf, rfl⟩ | ⟨e', hf, -⟩
    · cases hf
      rfl
    · cases hf

private theorem delete_eq {code : String} (h : code = c.text) (repo : Repository k) :
    delete repo code = (do
      repo.delete c
      Action.log (doneRecord k c "deleted")) := by
  have hcode := Code.parse_of_text h
  cases k with
  | uom =>
    show deleteUom repo code = _
    unfold deleteUom
    rw [hcode]
    rfl
  | parameter =>
    show deleteParameter repo code = _
    unfold deleteParameter
    rw [hcode]
    rfl

/-- Every command on a code keeps to the discipline, from the first phase of its course. -/
theorem follows_amendment {cmd : Amendment k} {course : Course k} (hcode : cmd.codeText = c.text)
    (htakes : cmd.Takes c course) :
    (cmd.action (Repository.stored k)).Follows (amends c horizon) Phase.Ends course.start := by
  cases htakes with
  | @refused cmd f h =>
    show (update (Repository.stored k) cmd >>= fun e => pure (some e)).Follows _ _ _
    rw [update_eq_revising hcode, h]
    exact Action.follows_fail rfl
  | @update cmd edit draft h hforgetful =>
    show (update (Repository.stored k) cmd >>= fun e => pure (some e)).Follows _ _ _
    rw [update_eq_revising hcode, h]
    exact follows_revising hforgetful
  | @delete code =>
    show (delete (Repository.stored k) code >>= fun _ => pure none).Follows _ _ _
    rw [delete_eq (show code = c.text from hcode)]
    refine Action.follows_bind (fun (x : Except Fault Unit) g =>
      g = Phase.settled (x.map fun _ => none)) ?_ (fun _ g hg => Action.follows_pure hg)
      fun f g hg => hg
    refine Action.follows_bind _ follows_storedDelete ?_ fun f g hg => hg
    intro _ g hg
    exact Action.follows_log_bind (Action.follows_pure hg)

/-- A command that is refused for its texts asks for nothing. -/
theorem Amendment.Takes.done {cmd : Amendment k} {f : Fault} (h : cmd.Takes c (.refused f))
    (hcode : cmd.codeText = c.text) :
    ∃ x, ExceptT.run (cmd.action (Repository.stored k)) = .done x := by
  cases h with
  | @refused cmd f h =>
    refine ⟨.error f, ?_⟩
    show ExceptT.run (Command.update (Repository.stored k) cmd >>= fun e => pure (some e)) = _
    rw [update_eq_revising hcode, h]
    rfl

/-! ## Taking effect -/

/-- A command that has not taken effect: what it has found of the row is the making, which is still
that of the row, and a time that a change can follow. -/
inductive Phase.Pursues (course : Course k) (row : Option (Entry k)) (bound : Nat) : Phase k → Prop
  | fresh : Pursues course row bound (.fresh course)
  | loaded {d : Entry k} {a : Audit} (hcourse : course = .update (.ok d))
    (hmaking : ∀ e ∈ row, d.madeAs a none = d.madeAs (Entry.audit e) none)
    (hwithin : a.Within bound) : Pursues course row bound (.loaded d a)

/-- The effect of another command does not get in the way. -/
theorem Phase.Pursues.effect {course : Course k} {g : Phase k} (h : g.Pursues course row bound)
    (other : Course k) : g.Pursues course (other.effect holds row).2 (bound + 1) := by
  cases h with
  | fresh => exact .fresh
  | @loaded d a hcourse hmaking hwithin =>
    refine .loaded hcourse ?_ (hwithin.mono (Nat.le_succ bound))
    intro e he
    obtain ⟨old, hold, rfl | ⟨d', -, rfl⟩⟩ := Course.effect_row he
    · exact hmaking _ hold
    · rw [Entry.madeAs_madeAs]
      exact hmaking _ hold

/-- One reply to a command that has not taken effect: it may go on and the store is as it was, or it
takes effect. -/
theorem answer_pursuing {w : World} {g : Phase k} {course : Course k} {r : Request}
    (hg : g.Pursues course row bound) (hshows : w.store.Shows c holds bound row)
    (hclock : w.wall.Within horizon) (hhorizon : horizon ≤ bound) (hlimit : bound + 1 < wallLimit)
    (hmay : g.May c horizon r) :
    Phase.Relies c horizon r (w.answer r).1 ∧ (w.answer r).2.wall = w.wall ∧
      ((g.after r (w.answer r).1).Pursues course row bound ∧
          (w.answer r).2.store.Shows c holds bound row ∨
        g.after r (w.answer r).1 = .settled (course.effect holds row).1 ∧
          (w.answer r).2.store.Shows c holds (bound + 1) (course.effect holds row).2) := by
  rcases hmay with ⟨record, rfl⟩ | hmay
  · refine ⟨trivial, rfl, Or.inl ⟨?_, hshows⟩⟩
    show ((amends c horizon).after g (.log record) ()).Pursues course row bound
    rw [(amends c horizon).after_log]
    exact hg
  · cases hg with
    | fresh =>
      cases course with
      | refused f => exact hmay.elim
      | delete =>
        cases hmay
        obtain ⟨hresult, hwall, hshows'⟩ := answer_delete hshows
        exact ⟨trivial, hwall, Or.inr ⟨congrArg Phase.settled hresult, hshows'⟩⟩
      | update draft =>
        cases hmay
        obtain ⟨x, hx, rfl, hfound⟩ := hshows.find
        simp only [World.answer, hx]
        refine ⟨⟨x, rfl, fun e he => ⟨congrArg Code.text (hfound e he).1, bound, (hfound e he).2,
          hlimit⟩⟩, trivial, ?_⟩
        -- A look that finds nothing, or of which no draft can be made, is all that the command does.
        cases x with
        | none => exact Or.inr ⟨rfl, hshows.mono (Nat.le_succ bound)⟩
        | some e =>
          cases draft with
          | error f => exact Or.inr ⟨rfl, hshows.mono (Nat.le_succ bound)⟩
          | ok d =>
            refine Or.inl ⟨.loaded rfl ?_ (hfound e rfl).2, hshows⟩
            intro e' he'
            cases he'
            exact (Entry.madeAs_untimed d e none).symm
    | @loaded d a hcourse hmaking hwithin =>
      subst hcourse
      rcases hmay with rfl | ⟨t, rfl, hcode, ht⟩
      · exact ⟨hclock, rfl, Or.inl ⟨.loaded rfl hmaking hwithin, hshows⟩⟩
      · -- Whatever the row is by now, its making is that of the row that was found.
        obtain ⟨hresult, hwall, hshows'⟩ :=
          answer_update hshows hcode (ht bound hhorizon hwithin) hmaking
        exact ⟨trivial, hwall, Or.inr ⟨congrArg Phase.settled hresult, hshows'⟩⟩

/-- One reply to a command that has taken effect changes nothing. -/
theorem answer_settled {w : World} {x : Except Fault (Option (Entry k))} {r : Request}
    (hclock : w.wall.Within horizon) (hmay : (Phase.settled x).May c horizon r) :
    Phase.Relies c horizon r (w.answer r).1 ∧ (w.answer r).2.wall = w.wall ∧
      (Phase.settled x).after r (w.answer r).1 = .settled x ∧
      (w.answer r).2.store = w.store := by
  rcases hmay with ⟨record, rfl⟩ | rfl
  · exact ⟨trivial, rfl, rfl, rfl⟩
  · exact ⟨hclock, rfl, rfl, rfl⟩

/-- A command by itself: it has not taken effect, or it has. -/
def Phase.Alone (c : Code k) (holds : Entry k → Bool) (horizon bound : Nat) (course : Course k)
    (row : Option (Entry k)) (g : Phase k) (w : World) : Prop :=
  w.wall.Within horizon ∧
    (g.Pursues course row bound ∧ w.store.Shows c holds bound row ∨
      g = .settled (course.effect holds row).1 ∧
        w.store.Shows c holds (bound + 1) (course.effect holds row).2)

theorem Phase.Alone.answer {course : Course k} {g : Phase k} {w : World} {r : Request}
    (h : g.Alone c holds horizon bound course row w) (hhorizon : horizon ≤ bound)
    (hlimit : bound + 1 < wallLimit) (hmay : g.May c horizon r) :
    Phase.Relies c horizon r (w.answer r).1 ∧
      (g.after r (w.answer r).1).Alone c holds horizon bound course row (w.answer r).2 := by
  obtain ⟨hclock, ⟨hg, hshows⟩ | ⟨rfl, hshows⟩⟩ := h
  · obtain ⟨hrelies, hwall, hnext⟩ := answer_pursuing hg hshows hclock hhorizon hlimit hmay
    exact ⟨hrelies, hwall.symm ▸ hclock, hnext⟩
  · obtain ⟨hrelies, hwall, hafter, hstore⟩ := answer_settled hclock hmay
    exact ⟨hrelies, hwall.symm ▸ hclock, Or.inr ⟨hafter, hstore.symm ▸ hshows⟩⟩

/-- A command carried out alone does what its effect says. -/
theorem Amendment.Takes.alone {cmd : Amendment k} {course : Course k} (htakes : cmd.Takes c course)
    (hcode : cmd.codeText = c.text) {w : World} (hshows : w.store.Shows c holds bound row)
    {now : Timestamp} (hnow : now.Within horizon) (hhorizon : horizon ≤ bound)
    (hlimit : bound + 1 < wallLimit) :
    upToTime (cmd.alone now w).1 = (course.effect holds row).1 ∧
      (cmd.alone now w).2.store.Shows c holds (bound + 1) (course.effect holds row).2 := by
  have hstart : course.start.Pursues course row bound ∧ w.store.Shows c holds bound row ∨
      course.start = .settled (course.effect holds row).1 ∧
        w.store.Shows c holds (bound + 1) (course.effect holds row).2 := by
    cases course with
    | refused f => exact Or.inr ⟨rfl, hshows.mono (Nat.le_succ bound)⟩
    | delete => exact Or.inl ⟨.fresh, hshows⟩
    | update draft => exact Or.inl ⟨.fresh, hshows⟩
  have halone : course.start.Alone c holds horizon bound course row { w with wall := now } :=
    ⟨hnow, hstart⟩
  obtain ⟨g, hends, -, hg⟩ := Program.run_follows (d := amends c horizon)
    (fun g w r (h : g.Alone c holds horizon bound course row w) hmay =>
      h.answer hhorizon hlimit hmay) (follows_amendment hcode htakes) halone
  rcases hg with ⟨hpursues, -⟩ | ⟨hg, hshows'⟩
  · rw [show g = _ from hends] at hpursues
    cases hpursues
  · rw [show g = _ from hends] at hg
    exact ⟨Phase.settled.inj hg, hshows'⟩

end CostCatalog.Command
