import CostCatalog.Proofs.Command.Runs
import CostCatalog.Proofs.Repository.Honest
import CostCatalog.Proofs.Rows

/-!
# What a command has done when it succeeds

Over honest repositories a command is all or nothing, however far it came: it ends with an entry that
is built as the command says and that the store has taken, or with a fault, and then the store is as it
was. The one change that a command asks for is the last thing in it that can fail.
-/

namespace CostCatalog.Command

variable {k : Kind}

/-! ## Queries -/

/-- The queries for a page of entries of a kind. -/
abbrev Listing : Kind → Type
  | .uom => ListUoms
  | .parameter => ListParameters

/-- The filter that a query asks for. -/
def Listing.filter : {k : Kind} → Listing k → Except Fault (Filter k)
  | .uom, q => ListUoms.filter q
  | .parameter, q => ListParameters.filter q

/-- The entry with a code. -/
def get : {k : Kind} → Repository k → String → Action (Entry k)
  | .uom, repo, code => getUom repo code
  | .parameter, repo, code => getParameter repo code

/-- A page of entries, how many there are on all pages, and the filter they passed. -/
def list : {k : Kind} → Repository k → Listing k → Action (List (Entry k) × Int × Filter k)
  | .uom, repo, q => listUoms repo q
  | .parameter, repo, q => listParameters repo q

theorem Listing.spares_filter (q : Listing k) : Spares q.filter := by
  cases k with
  | uom => exact ListUoms.spares_filter q
  | parameter => exact ListParameters.spares_filter q

/-! ## What commands describe -/

/-- A unit shows the values that a command gives. -/
structure ShowsUom (u : Uom) (code name category : String) (isBase : Bool) : Prop where
  code : u.code.text = code
  name : u.name = name
  category : u.category.text = category
  isBase : u.isBase = isBase

/-- An entry is the one that a command describes which makes it. -/
def Creation.Describes : {k : Kind} → Creation k → Entry k → Prop
  | .uom, cmd, u =>
    ShowsUom u (CreateUom.code cmd) (CreateUom.name cmd) (CreateUom.category cmd)
      (CreateUom.isBase cmd)
  | .parameter, cmd, p =>
    Shows p (CreateParameter.code cmd) (CreateParameter.name cmd) (CreateParameter.category cmd)
      (CreateParameter.dataType cmd) (CreateParameter.fields cmd) true

/-- An entry is the one that a command describes which changes it. -/
def Update.Describes : {k : Kind} → Update k → Entry k → Prop
  | .uom, cmd, u =>
    ShowsUom u (UpdateUom.code cmd) (UpdateUom.name cmd) (UpdateUom.category cmd)
      (UpdateUom.isBase cmd)
  | .parameter, cmd, p =>
    Shows p (UpdateParameter.code cmd) (UpdateParameter.name cmd) (UpdateParameter.category cmd)
      (UpdateParameter.dataType cmd) (UpdateParameter.fields cmd) (UpdateParameter.isActive cmd)

/-- Who gives a command. -/
def Creation.actor : {k : Kind} → Creation k → String
  | .uom, cmd => CreateUom.createdBy cmd
  | .parameter, cmd => CreateParameter.createdBy cmd

/-- Who gives a command. -/
def Update.actor : {k : Kind} → Update k → String
  | .uom, cmd => UpdateUom.updatedBy cmd
  | .parameter, cmd => UpdateParameter.updatedBy cmd

/-- What a command makes when the clock reads `now`. -/
structure Creation.Makes (cmd : Creation k) (now : Timestamp) (e : Entry k) : Prop where
  codeText : e.code.text = cmd.codeText
  describes : cmd.Describes e
  audit : e.audit = .start cmd.actor now

/-- What a command makes of an entry when the clock reads `now`. -/
structure Update.Makes (cmd : Update k) (now : Timestamp) (old e : Entry k) : Prop where
  code : e.code = old.code
  codeText : e.code.text = cmd.codeText
  describes : cmd.Describes e
  audit : ∃ t, Audit.nextTime now old.audit.latest = .ok t ∧
    e.audit = { old.audit with updatedAt := some t, updatedBy := some cmd.actor }

/-- What is made is new on record. -/
theorem Creation.Makes.dated {cmd : Creation k} {now : Timestamp} {e : Entry k}
    (h : cmd.Makes now e) : e.Dated := ⟨now, by rw [h.audit]; rfl⟩

/-- A unit that is made shows the values that are given and was made now. -/
private theorem showsUom_of_make {c : Code .uom} {name actor : String} {category : UomCategory}
    {now : Timestamp} {isBase : Bool} {v : Uom}
    (h : (Uom.create c name category actor now).map (fun u => if isBase then u.markBase else u) =
      .ok v) : ShowsUom v c.text name category.text isBase ∧ v.audit = .start actor now := by
  cases hu : Uom.create c name category actor now with
  | error f => rw [hu] at h; cases h
  | ok u =>
    rw [hu] at h
    cases h
    unfold Uom.create at hu
    split at hu
    · cases hu
    · split at hu
      · cases hu
      · cases hu
        cases isBase <;> exact ⟨⟨rfl, rfl, rfl, rfl⟩, rfl⟩

/-- A unit that is changed shows the values that are given; its making stays on record, and the change
is the next thing on record. -/
private theorem showsUom_of_edit {now : Timestamp} {u v : Uom} {name actor : String}
    {category : UomCategory} {isBase : Bool}
    (h : Uom.edit now u (.update name category isBase actor) = (.ok (), v)) :
    ShowsUom v u.code.text name category.text isBase ∧
      ∃ t, Audit.nextTime now u.audit.latest = .ok t ∧
        v.audit = { u.audit with updatedAt := some t, updatedBy := some actor } := by
  rw [Uom.edit] at h
  split at h
  · cases h
  split at h
  · cases h
  dsimp only at h
  split at h
  case h_2 => cases h
  next audit hstamp =>
  cases h
  obtain ⟨t, ht, haudit⟩ := bind_ok hstamp
  cases haudit
  exact ⟨⟨rfl, rfl, rfl, rfl⟩, t, ht, rfl⟩

/-! ## Parts of commands -/

section Parts

variable {repo : Repository k} {good : Prospect → Prop} {shows : Store → Store → Prop}
  {p : Prospect} {c : Code k}

/-- The clock is read, and what is done at that time. -/
theorem now_bind {α : Type} (h : repo.Honest good shows) (hp : good p) {f : Timestamp → Action α}
    {effect : α → Store → Prop}
    (hf : ∀ p', good p' → p'.world.Alike p.world → (f p.world.wall).AllOrNothing good effect p') :
    (Action.now >>= f).AllOrNothing good effect p := by
  have hidle : Request.IsIdle .now := trivial
  have hwall : (p.answer .now).1 = p.world.wall := (p.answer_of_bare (.refl _) id).1
  have hnow : Action.now.AllOrNothing good
      (fun t s => s = p.world.store ∧ t = p.world.wall) p := by
    have hrun : Action.now.performAmid p = (.ok (p.answer .now).1, (p.answer .now).2) := rfl
    exact .of_ok hrun (h.idle hidle hp) ⟨(p.answer_idle hidle).store, hwall⟩
  refine hnow.bind ?_
  rintro t p' hp' halike rfl
  exact hf p' hp' halike

/-- Logging that a command is done is the last of it. -/
theorem logged {α : Type} (h : repo.Honest good shows) {a : Action Unit} {effect : Store → Prop}
    (ha : a.AllOrNothing good (fun _ s => effect s) p) (r : LogRecord) (x : α) :
    (do a; Action.log r; pure x : Action α).AllOrNothing good (fun y s => y = x ∧ effect s) p := by
  have hsettled := ha.settled (f := fun _ => do Action.log r; pure x) (g := fun _ => x) ?_
  · exact hsettled.mono fun y s hy => ⟨hy.choose_spec.1, hy.choose_spec.2⟩
  · intro _ p' hp' _
    refine ⟨(Action.settles_log r p').bind (g := fun _ => .ok x) fun _ p'' =>
      Action.settles_ofExcept (.ok x) p'', ?_⟩
    exact h.idle (r := .log r) trivial hp'

theorem making_allOrNothing (h : repo.Honest good shows) (hp : good p)
    {build : Timestamp → Except Fault (Entry k)} (hbuild : Spares (build p.world.wall))
    (hdated : ∀ e, build p.world.wall = .ok e → e.Dated) :
    (making repo c build).AllOrNothing good
      (fun e s => build p.world.wall = .ok e ∧ p.world.store.insert e = .ok s) p := by
  refine (h.contains c hp).bind ?_
  intro taken p₁ hp₁ halike₁ _
  split
  · exact .fail rfl hp₁
  refine now_bind h hp₁ ?_
  intro p₂ hp₂ halike₂
  have halike := halike₂.trans halike₁
  rw [halike₁.wall]
  refine .ofExcept_bind hp₂ hbuild ?_
  intro e he
  refine (logged h (h.create e hp₂ (hdated e he)) (doneRecord k c "created") e).mono ?_
  rintro e' s ⟨rfl, hinsert⟩
  exact ⟨he, halike.store ▸ hinsert⟩

theorem revising_allOrNothing (h : repo.Honest good shows) (hp : good p)
    {edit : Timestamp → Entry k → Except Fault (Entry k)}
    (hedit : ∀ old, Spares (edit p.world.wall old)) :
    (revising repo c edit).AllOrNothing good
      (fun e s => ∃ s₀ old, shows p.world.store s₀ ∧ s₀.row? c = some old ∧
        edit p.world.wall old = .ok e ∧ p.world.store.update e = .ok (true, s)) p := by
  refine (h.find c hp).bind ?_
  rintro old p₁ hp₁ halike₁ ⟨s₀, hshows, hold⟩
  refine now_bind h hp₁ ?_
  intro p₂ hp₂ halike₂
  have halike := halike₂.trans halike₁
  rw [halike₁.wall]
  refine .ofExcept_bind hp₂ (hedit old) ?_
  intro e he
  refine (logged h (h.update e hp₂) (doneRecord k c "updated") e).mono ?_
  rintro e' s ⟨rfl, hupdate⟩
  exact ⟨s₀, old, hshows, hold, he, halike.store ▸ hupdate⟩

end Parts

/-! ## Commands -/

section Commands

variable {repo : Repository k} {good : Prospect → Prop} {shows : Store → Store → Prop}
  {p : Prospect}

/-- A command that makes an entry. -/
theorem create_allOrNothing (h : repo.Honest good shows) (hp : good p) (cmd : Creation k) :
    (create repo cmd).AllOrNothing good
      (fun e s => cmd.Makes p.world.wall e ∧ p.world.store.insert e = .ok s) p := by
  cases k with
  | uom =>
    show (createUom repo cmd).AllOrNothing _ _ _
    rw [createUom_eq]
    refine .ofExcept_bind hp (Code.spares_parse _) fun c hc =>
      .ofExcept_bind hp (Category.spares_parse _) fun category hcategory => ?_
    have hmakes : ∀ e, (Uom.create c (CreateUom.name cmd) category (CreateUom.createdBy cmd)
        p.world.wall).map (fun u => if CreateUom.isBase cmd then u.markBase else u) = .ok e →
        Creation.Makes (k := .uom) cmd p.world.wall e := by
      intro e he
      obtain ⟨hshows, haudit⟩ := showsUom_of_make he
      rw [Code.text_of_parse hc, Category.text_of_parse_uom hcategory] at hshows
      exact ⟨hshows.code, hshows, haudit⟩
    refine (making_allOrNothing h hp (Spares.map (Uom.spares_create _ _ _ _ _) _)
      fun e he => (hmakes e he).dated).mono ?_
    rintro e s ⟨he, hinsert⟩
    exact ⟨hmakes e he, hinsert⟩
  | parameter =>
    show (createParameter repo cmd).AllOrNothing _ _ _
    rw [createParameter_eq]
    refine .ofExcept_bind hp (Code.spares_parse _) fun c hc =>
      .ofExcept_bind hp (Category.spares_parse _) fun category hcategory =>
        .ofExcept_bind hp (DataType.spares_parse _) fun dataType htype => ?_
    have hmakes : ∀ e, (Parameter.create c (CreateParameter.name cmd) category dataType
        (CreateParameter.createdBy cmd) p.world.wall >>= fun q =>
          q.editAll p.world.wall (CreateParameter.fields cmd).edits) = .ok e →
        Creation.Makes (k := .parameter) cmd p.world.wall e := by
      intro e he
      obtain ⟨hshows, haudit⟩ := shows_of_make he
      rw [Code.text_of_parse hc, Category.text_of_parse hcategory, DataType.name_of_parse htype]
        at hshows
      exact ⟨hshows.code, hshows, haudit⟩
    refine (making_allOrNothing h hp
      (Spares.bind (Parameter.spares_create _ _ _ _ _ _) fun q => q.spares_editAll _ _)
      fun e he => (hmakes e he).dated).mono ?_
    rintro e s ⟨he, hinsert⟩
    exact ⟨hmakes e he, hinsert⟩

/-- A command that changes an entry. -/
theorem update_allOrNothing (h : repo.Honest good shows) (hp : good p) (cmd : Update k) :
    (update repo cmd).AllOrNothing good
      (fun e s => ∃ s₀ old, shows p.world.store s₀ ∧ s₀.row? e.code = some old ∧
        cmd.Makes p.world.wall old e ∧ p.world.store.update e = .ok (true, s)) p := by
  cases k with
  | uom =>
    show (updateUom repo cmd).AllOrNothing _ _ _
    rw [updateUom_eq]
    refine .ofExcept_bind hp (Code.spares_parse _) fun c hc =>
      .ofExcept_bind hp (Category.spares_parse _) fun category hcategory => ?_
    refine (revising_allOrNothing h hp fun old => ?spares).mono ?_
    case spares =>
      split
      · exact spares_ok _
      · next f _ hf => exact spares_error (Uom.spares_edit _ _ _ f (congrArg Prod.fst hf))
    rintro e s ⟨s₀, old, hshows, hold, he, hupdate⟩
    split at he
    case h_2 => cases he
    next u hedit =>
    cases he
    obtain ⟨hvalues, haudit⟩ := showsUom_of_edit hedit
    have hcode : Uom.code old = c := (Store.row?_spec hold).2
    rw [hcode, Code.text_of_parse hc, Category.text_of_parse_uom hcategory] at hvalues
    have hsame : Entry.code (k := .uom) e = c :=
      Code.ext_text (hvalues.code.trans (Code.text_of_parse hc).symm)
    exact ⟨s₀, old, hshows, hsame ▸ hold, ⟨hsame.trans hcode.symm, hvalues.code, hvalues, haudit⟩,
      hupdate⟩
  | parameter =>
    show (updateParameter repo cmd).AllOrNothing _ _ _
    rw [updateParameter_eq]
    refine .ofExcept_bind hp (Code.spares_parse _) fun c hc =>
      .ofExcept_bind hp (Category.spares_parse _) fun category hcategory =>
        .ofExcept_bind hp (DataType.spares_parse _) fun dataType htype => ?_
    refine (revising_allOrNothing h hp fun old => Parameter.spares_editAll _ _ _).mono ?_
    rintro e s ⟨s₀, old, hshows, hold, he, hupdate⟩
    obtain ⟨hvalues, haudit⟩ := UpdateParameter.shows_of_editAll he
    have hcode : Parameter.code old = c := (Store.row?_spec hold).2
    rw [hcode, Code.text_of_parse hc, Category.text_of_parse hcategory,
      DataType.name_of_parse htype] at hvalues
    have hsame : Entry.code (k := .parameter) e = c :=
      Code.ext_text (hvalues.code.trans (Code.text_of_parse hc).symm)
    exact ⟨s₀, old, hshows, hsame ▸ hold, ⟨hsame.trans hcode.symm, hvalues.code, hvalues, haudit⟩,
      hupdate⟩

/-- A command that ends an entry. -/
theorem delete_allOrNothing (h : repo.Honest good shows) (hp : good p) (code : String) :
    (delete repo code).AllOrNothing good
      (fun _ s => ∃ c : Code k, c.text = code ∧ p.world.store.delete c = .ok (true, s)) p := by
  have hmain : (do
      let c ← Action.ofExcept (Code.parse k (.str code))
      repo.delete c
      Action.log (doneRecord k c "deleted") : Action Unit).AllOrNothing good
        (fun _ s => ∃ c : Code k, c.text = code ∧ p.world.store.delete c = .ok (true, s)) p := by
    refine .ofExcept_bind hp (Code.spares_parse _) fun c hc => ?_
    refine (logged h (h.delete c hp) (doneRecord k c "deleted") ()).mono ?_
    rintro _ s ⟨-, hdelete⟩
    exact ⟨c, Code.text_of_parse hc, hdelete⟩
  cases k with
  | uom => exact hmain
  | parameter => exact hmain

/-- A query for an entry. -/
theorem get_allOrNothing (h : repo.Honest good shows) (hp : good p) (code : String) :
    (get repo code).AllOrNothing good
      (fun e s => s = p.world.store ∧ e.code.text = code ∧
        ∃ s₀, shows p.world.store s₀ ∧ s₀.row? e.code = some e) p := by
  have hmain : (do
      let c ← Action.ofExcept (Code.parse k (.str code))
      repo.find c : Action (Entry k)).AllOrNothing good
        (fun e s => s = p.world.store ∧ e.code.text = code ∧
          ∃ s₀, shows p.world.store s₀ ∧ s₀.row? e.code = some e) p := by
    refine .ofExcept_bind hp (Code.spares_parse _) fun c hc => ?_
    refine (h.find c hp).mono ?_
    rintro e s ⟨hs, s₀, hshows, he⟩
    obtain rfl := (Store.row?_spec he).2
    exact ⟨hs, Code.text_of_parse hc, s₀, hshows, he⟩
  cases k with
  | uom => exact hmain
  | parameter => exact hmain

/-- A query for a page. -/
theorem list_allOrNothing (h : repo.Honest good shows) (hp : good p) (q : Listing k) :
    (list repo q).AllOrNothing good
      (fun found s => s = p.world.store ∧ ∃ s₀ f, shows p.world.store s₀ ∧ q.filter = .ok f ∧
        s₀.listed f = .ok (found.1, found.2.1) ∧ found.2.2 = f) p := by
  have hmain : (do
      let f ← Action.ofExcept q.filter
      let found ← repo.list f
      pure (found.1, found.2, f) : Action (List (Entry k) × Int × Filter k)).AllOrNothing good
        (fun found s => s = p.world.store ∧ ∃ s₀ f, shows p.world.store s₀ ∧ q.filter = .ok f ∧
          s₀.listed f = .ok (found.1, found.2.1) ∧ found.2.2 = f) p := by
    refine .ofExcept_bind hp q.spares_filter fun f hf => ?_
    refine (h.list f hp).bind ?_
    rintro found p' hp' halike ⟨s₀, hshows, hfound⟩
    exact .pure hp' ⟨halike.store, s₀, f, hshows, hf, hfound, rfl⟩
  cases k with
  | uom => exact hmain
  | parameter => exact hmain

end Commands

end CostCatalog.Command

namespace CostCatalog

/-! ## Demands -/

/-- What can be asked of the catalogue: a command, or a query for one entry or for a page. -/
inductive Demand where
  | instruct (i : Instruction)
  | get (k : Kind) (code : String)
  | list (k : Kind) (q : Command.Listing k)

namespace Demand

/-- Does what is asked. -/
def meet (repos : Repositories) : Demand → Action Unit
  | .instruct (.create k cmd) => do let _ ← Command.create (repos k) cmd; pure ()
  | .instruct (.update k cmd) => do let _ ← Command.update (repos k) cmd; pure ()
  | .instruct (.delete k code) => Command.delete (repos k) code
  | .get k code => do let _ ← Command.get (repos k) code; pure ()
  | .list k q => do let _ ← Command.list (repos k) q; pure ()

/-- What is done to a store when what is asked is done, the clock reading `now` and what is read being
what stores answer that it `shows`. -/
def Effect (shows : Store → Store → Prop) (now : Timestamp) (s s' : Store) : Demand → Prop
  | .instruct (.create _ cmd) => ∃ e, cmd.Makes now e ∧ s.insert e = .ok s'
  | .instruct (.update _ cmd) => ∃ s₀ old e, shows s s₀ ∧ s₀.row? e.code = some old ∧
      cmd.Makes now old e ∧ s.update e = .ok (true, s')
  | .instruct (.delete k code) => ∃ c : Code k, c.text = code ∧ s.delete c = .ok (true, s')
  | .get .. | .list .. => s' = s

theorem meet_allOrNothing {repos : Repositories} {good : Prospect → Prop}
    {shows : Store → Store → Prop} (h : ∀ k, (repos k).Honest good shows) {p : Prospect} (hp : good p)
    (d : Demand) : (d.meet repos).AllOrNothing good
      (fun _ s => d.Effect shows p.world.wall p.world.store s) p := by
  -- What is shown to the caller makes no difference to the effect.
  have hshown {α : Type} {a : Action α} {effect : α → Store → Prop} {done : Store → Prop}
      (ha : a.AllOrNothing good effect p) (hdone : ∀ x s, effect x s → done s) :
      (do let _ ← a; pure () : Action Unit).AllOrNothing good (fun _ s => done s) p := by
    refine (ha.settled (f := fun _ => pure ()) (g := fun _ => ()) ?_).mono ?_
    · exact fun _ p' hp' _ => ⟨Action.settles_ofExcept (.ok ()) p', hp'⟩
    · rintro _ s ⟨x, -, hx⟩
      exact hdone x s hx
  cases d with
  | instruct i =>
    cases i with
    | create k cmd =>
      exact hshown (Command.create_allOrNothing (h k) hp cmd) fun e s he => ⟨e, he⟩
    | update k cmd =>
      refine hshown (Command.update_allOrNothing (h k) hp cmd) ?_
      rintro e s ⟨s₀, old, he⟩
      exact ⟨s₀, old, e, he⟩
    | delete k code => exact Command.delete_allOrNothing (h k) hp code
  | get k code => exact hshown (Command.get_allOrNothing (h k) hp code) fun e s he => he.1
  | list k q => exact hshown (Command.list_allOrNothing (h k) hp q) fun found s hs => hs.1

end Demand

end CostCatalog
