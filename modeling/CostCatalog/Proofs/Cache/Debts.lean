import CostCatalog.Proofs.Cache.Queries
import CostCatalog.Proofs.Cache.Worlds
import CostCatalog.Proofs.Program.Disciplines

/-!
# What a program has still to drop

A change of the store puts a program into debt: the slots of all queries that the change touches are
to be dropped. `debts` is the discipline of programs that use the cache and the store; a phase is what
is still to be dropped, a change adds to it and dropping pays. A call through the cache starts without
debts and ends without any, `Call.follows_debts`, also when it ends with a fault.
-/

namespace CostCatalog

variable {k : Kind} {α : Type} {stem : String}

/-- The queries whose slots a program has still to drop. -/
abbrev Debt := Query → Prop

namespace Debt

/-- No debt. -/
def none : Debt := fun _ => False

/-- What is still to be dropped after a reply, behind the stem of the cache. -/
def after (stem : String) (debt : Debt) : (r : Request) → r.Reply → Debt
  | .insert k e, .ok () => fun q => debt q ∨ (Change.mk k e.code false).Touches q
  | .update k e, .ok true => fun q => debt q ∨ (Change.mk k e.code false).Touches q
  | .delete k c, .ok true => fun q => debt q ∨ (Change.mk k c true).Touches q
  | .cacheDelete key, _ => fun q => debt q ∧ q.key ≠ key
  | .cacheDeleteMatching pattern, _ => fun q =>
    debt q ∧ Glob.isMatch (stem ++ pattern) (stem ++ q.key) = false
  | _, _ => debt

end Debt

namespace Request

/-- What may be kept in the cache: under the key of a query, what renders an answer to it. -/
def IsLegible : Request → Prop
  | .cacheSet key v _ => ∃ q : Query, q.hasKey = true ∧ key = q.key ∧ q.Renders v
  | _ => True

/-- What a program relies on: the store holds entries in normal form, and the cache gives something or
nothing and drops what it is told to. Nothing is relied on in keeping. -/
def Relies : (r : Request) → r.Reply → Prop
  | .find _ _, reply => ∀ e, reply = .ok (some e) → e.IsStored
  | .page _ _, reply => ∀ entries, reply = .ok entries → ∀ e ∈ entries, e.IsStored
  | .cacheGet _, reply => ∃ v, reply = .ok v
  | .cacheDelete _, reply => reply = .ok ()
  | .cacheDeleteMatching _, reply => reply = .ok ()
  | _, _ => True

end Request

/-- The discipline of programs that use the store and the cache behind a stem. -/
def debts (stem : String) : Discipline Debt where
  may _ r := r.IsLegible
  relies _ r reply := r.Relies reply
  after := Debt.after stem
  may_log _ _ := trivial
  after_log _ _ := rfl

/-! ## The store -/

namespace Repository

variable {debt : Debt}

theorem follows_storedContains (c : Code k) :
    (storedContains k c).Follows (debts stem) (fun _ debt' => debt' = debt) debt :=
  Action.follows_ask trivial fun _ _ => Action.follows_settle rfl

theorem follows_storedFind (c : Code k) :
    (storedFind k c).Follows (debts stem)
      (fun x debt' => debt' = debt ∧ ∀ e, x = .ok e → e.IsStored) debt := by
  apply Action.follows_ask trivial
  intro reply hreply
  refine Action.follows_settle_bind ?_ fun e _ => ⟨rfl, fun _ h => nomatch h⟩
  intro found hfound
  cases found with
  | none => exact Action.follows_fail ⟨rfl, fun _ h => nomatch h⟩
  | some e =>
    refine Action.follows_pure ⟨rfl, ?_⟩
    intro e' he'
    cases he'
    exact hreply e hfound

private theorem follows_storedList (f : Filter k) :
    (storedList k f).Follows (debts stem)
      (fun x debt' => debt' = debt ∧ ∀ found, x = .ok found → ∀ e ∈ found.1, e.IsStored) debt := by
  apply Action.follows_ask trivial
  intro _ _
  refine Action.follows_settle_bind ?_ fun e _ => ⟨rfl, fun _ h => nomatch h⟩
  intro total _
  apply Action.follows_ask trivial
  intro reply hreply
  refine Action.follows_settle_bind ?_ fun e _ =>
    ⟨rfl, fun _ h => nomatch h⟩
  intro entries hentries
  refine Action.follows_pure ⟨rfl, ?_⟩
  intro found hfound
  cases hfound
  exact hreply entries hentries

/-- What a change adds to the debt: nothing if it fails, else what it touches. -/
def Incurs (debt : Debt) (ch : Change) (x : Except Fault Unit) (debt' : Debt) : Prop :=
  (∃ f, x = .error f) ∧ debt' = debt ∨ x = .ok () ∧ debt' = fun q => debt q ∨ ch.Touches q

theorem follows_storedCreate (e : Entry k) :
    (storedCreate k e).Follows (debts stem) (Incurs debt ⟨k, e.code, false⟩) debt := by
  apply Action.follows_ask trivial
  intro reply _
  cases reply with
  | ok _ => exact Action.follows_pure (Or.inr ⟨rfl, rfl⟩)
  | error f =>
    have hfail : ∀ fault : Fault, (Action.fail fault : Action Unit).Follows (debts stem)
        (Incurs debt ⟨k, e.code, false⟩) debt := fun fault =>
      Action.follows_fail (Or.inl ⟨⟨fault, rfl⟩, rfl⟩)
    apply Action.follows_report_bind
    simp only
    split
    · refine Action.follows_bind _ (follows_storedContains e.code) ?_
        fun fault debt' hdebt => Or.inl ⟨⟨fault, rfl⟩, hdebt⟩
      intro found debt' hdebt
      cases hdebt
      split
      · exact hfail _
      · exact hfail _
    · exact hfail _

/-- A statement that says whether it found a row. -/
theorem follows_needRow {operation : String} {ch : Change} {reply : Except StoreFailure Bool}
    {debt' : Debt} (hchanged : reply = .ok true → debt' = fun q => debt q ∨ ch.Touches q)
    (hunchanged : reply ≠ .ok true → debt' = debt) :
    (do needRow k (← settle operation reply) : Action Unit).Follows (debts stem)
      (Incurs debt ch) debt' := by
  apply Action.follows_settle_bind
  · intro found hfound
    cases found with
    | true => exact Action.follows_pure (Or.inr ⟨rfl, hchanged hfound⟩)
    | false =>
      refine Action.follows_fail (Or.inl ⟨⟨_, rfl⟩, hunchanged ?_⟩)
      rw [hfound]
      exact fun h => nomatch h
  · intro f hf
    refine Or.inl ⟨⟨_, rfl⟩, hunchanged ?_⟩
    rw [hf]
    exact fun h => nomatch h

theorem follows_storedUpdate (e : Entry k) :
    (storedUpdate k e).Follows (debts stem) (Incurs debt ⟨k, e.code, false⟩) debt := by
  apply Action.follows_ask trivial
  intro reply _
  apply follows_needRow
  · intro h
    rw [h]
    rfl
  · intro h
    match reply, h with
    | .ok false, _ => rfl
    | .error f, _ => rfl

theorem follows_storedDelete (c : Code k) :
    (storedDelete k c).Follows (debts stem) (Incurs debt ⟨k, c, true⟩) debt := by
  apply Action.follows_ask trivial
  intro reply _
  apply follows_needRow
  · intro h
    rw [h]
    rfl
  · intro h
    match reply, h with
    | .ok false, _ => rfl
    | .error f, _ => rfl

/-! ## The cache -/

variable {β : Type} {ends : Except Fault β → Debt → Prop}

private theorem follows_lookUp {key : String} {f : Option Json → Action β}
    (h : ∀ v, (f v).Follows (debts stem) ends debt) :
    (lookUp key >>= f).Follows (debts stem) ends debt := by
  apply Action.follows_bind (fun x debt' => (∃ v, x = .ok v) ∧ debt' = debt)
  · apply Action.follows_ask trivial
    intro reply hreply
    obtain ⟨v, rfl⟩ := hreply
    exact Action.follows_pure ⟨⟨v, rfl⟩, rfl⟩
  · rintro v debt' ⟨-, rfl⟩
    exact h v
  · rintro e debt' ⟨⟨v, hv⟩, -⟩
    cases hv

private theorem follows_overlook (what : String) (f : Fault) :
    (overlook what f).Follows (debts stem) (fun _ debt' => debt' = debt) debt := by
  unfold overlook
  split
  · exact Action.follows_ask trivial fun _ _ => rfl
  · exact Action.follows_fail rfl

/-- Whether or not what renders an answer is kept, the debt stays as it is. -/
private theorem follows_keep {q : Query} (hq : q.hasKey = true) {v : Json} (hv : q.Renders v)
    (ttl : Int) : (keep q.key v ttl).Follows (debts stem) (fun _ debt' => debt' = debt) debt := by
  refine Action.follows_ask ⟨q, hq, rfl, hv⟩ ?_
  intro reply _
  cases reply with
  | ok _ => exact Action.follows_pure rfl
  | error f => exact follows_overlook _ f

private theorem follows_forgetMatching (pattern : String) :
    (forgetMatching pattern).Follows (debts stem) (fun x debt' => x = .ok () ∧
      debt' = fun q => debt q ∧ Glob.isMatch (stem ++ pattern) (stem ++ q.key) = false) debt := by
  apply Action.follows_ask trivial
  intro reply hreply
  cases hreply
  exact Action.follows_pure ⟨rfl, rfl⟩

theorem follows_forget (key pattern : String) :
    (forget key pattern).Follows (debts stem) (fun x debt' => x = .ok () ∧
      debt' = fun q => (debt q ∧ q.key ≠ key) ∧
        Glob.isMatch (stem ++ pattern) (stem ++ q.key) = false) debt := by
  apply Action.follows_ask trivial
  intro reply hreply
  cases hreply
  apply Action.follows_ask trivial
  intro reply hreply
  cases hreply
  exact Action.follows_pure ⟨rfl, rfl⟩

/-! ## Calls -/

/-- A read through the cache keeps what renders an answer, and makes no debt. -/
theorem follows_readThrough {q : Query} (hq : q.hasKey = true) (ttl : Int) {inner : Action α}
    {render : α → Json} {read : Json → Except Fault α}
    (hinner : inner.Follows (debts stem)
      (fun x debt' => debt' = Debt.none ∧ ∀ a, x = .ok a → q.Renders (render a)) Debt.none) :
    (readThrough q.key inner render read ttl).Follows (debts stem) (fun _ debt => debt = Debt.none)
      Debt.none := by
  apply follows_lookUp
  intro found
  cases found with
  | some record => exact Action.follows_ofExcept rfl
  | none =>
    refine Action.follows_bind _ hinner ?_ fun _ _ h => h.1
    intro a debt' ha
    obtain ⟨rfl, hrenders⟩ := ha
    refine Action.follows_bind _ (follows_keep hq (hrenders a rfl) ttl) ?_ fun _ _ h => h
    intro _ debt' h
    exact Action.follows_pure h

variable (hplain : ∀ c ∈ stem.toList, Glob.IsPlain c)

include hplain

/-- Dropping an entry's own key and the lists of its kind pays for a change that does not end it. -/
theorem follows_forgetEntry (c : Code k) :
    (forgetEntry c).Follows (debts stem) (fun _ debt => debt = Debt.none)
      (fun q => Debt.none q ∨ (Change.mk k c false).Touches q) := by
  apply (follows_forget (Filter.entryKey c) (Filter.listPattern k)).mono
  rintro x debt' ⟨-, rfl⟩
  funext q
  refine propext ⟨?_, False.elim⟩
  rintro ⟨⟨hfalse | hq, hown⟩, hlist⟩
  · exact hfalse
  · have hnot : ¬ (Change.mk k c false).Touches q :=
      Change.not_touches hplain hown hlist fun h => nomatch h
    exact hnot hq

/-- Dropping what refers to a unit besides pays for the end of an entry. -/
private theorem follows_forgetReferences (c : Code k) :
    (do forgetEntry c; forgetReferences k : Action Unit).Follows (debts stem)
      (fun _ debt => debt = Debt.none) (fun q => Debt.none q ∨ (Change.mk k c true).Touches q) := by
  refine Action.follows_bind _ (follows_forget (Filter.entryKey c) (Filter.listPattern k))
    ?_ ?_
  · intro _ debt' h
    obtain ⟨-, rfl⟩ := h
    cases k with
    | parameter =>
      refine Action.follows_pure (funext fun q => propext ⟨?_, False.elim⟩)
      rintro ⟨⟨hfalse | hq, hown⟩, hlist⟩
      · exact hfalse
      · have hnot : ¬ (Change.mk .parameter c true).Touches q :=
          Change.not_touches hplain hown hlist fun _ h => nomatch h
        exact hnot hq
    | uom =>
      apply (follows_forgetMatching (Filter.allPattern .parameter)).mono
      rintro x debt' ⟨-, rfl⟩
      refine funext fun q => propext ⟨?_, False.elim⟩
      rintro ⟨⟨⟨hfalse | hq, hown⟩, hlist⟩, hall⟩
      · exact hfalse
      · have hnot : ¬ (Change.mk .uom c true).Touches q :=
          Change.not_touches hplain hown hlist fun _ _ => hall
        exact hnot hq
  · rintro e debt' ⟨h, -⟩
    cases h

end Repository

/-- A call through the cache ends without debts. -/
theorem Call.follows_debts (call : Call) (ttl : Kind → Int)
    (hplain : ∀ c ∈ stem.toList, Glob.IsPlain c) :
    (call.on (.cached ttl)).Follows (debts stem) (fun _ debt => debt = Debt.none) Debt.none := by
  have hmap {α : Type} {a : Action α} (f : α → Reply) (h : a.Follows (debts stem)
      (fun _ debt => debt = Debt.none) Debt.none) : (a >>= fun v => pure (f v)).Follows
      (debts stem) (fun _ debt => debt = Debt.none) Debt.none :=
    Action.follows_bind _ h (fun v _ hv => Action.follows_pure hv) fun _ _ h => h
  have hchange {inner drop : Action Unit} {ch : Change}
      (hinner : inner.Follows (debts stem) (Repository.Incurs Debt.none ch) Debt.none)
      (hdrop : drop.Follows (debts stem) (fun _ debt => debt = Debt.none)
        (fun q => Debt.none q ∨ ch.Touches q)) :
      (do inner; drop : Action Unit).Follows (debts stem) (fun _ debt => debt = Debt.none)
        Debt.none := by
    apply Action.follows_bind _ hinner
    · intro _ debt' h
      rcases h with ⟨⟨f, hf⟩, -⟩ | ⟨-, rfl⟩
      · cases hf
      · exact hdrop
    · intro e debt' h
      rcases h with ⟨-, h⟩ | ⟨h, -⟩
      · exact h
      · cases h
  cases call with
  | create k e =>
    exact hmap (fun _ => .done) (hchange (Repository.follows_storedCreate e)
      (Repository.follows_forgetEntry hplain e.code))
  | find k c =>
    refine hmap (Reply.entry k) (Repository.follows_readThrough (q := .entry k c) rfl (ttl k) ?_)
    exact (Repository.follows_storedFind c).mono fun x debt' h =>
      ⟨h.1, fun e he => ⟨e, h.2 e he, rfl⟩⟩
  | list k f =>
    refine hmap (fun found : List (Entry k) × Int => Reply.page k found.1 found.2)
      (a := Repository.cachedList (Repository.stored k) (ttl k) f) ?_
    by_cases hf : f.hasListKey = true
    · rw [Repository.cachedList_of_hasListKey hf]
      refine Repository.follows_readThrough (q := .list k f) hf (ttl k) ?_
      exact (Repository.follows_storedList f).mono fun x debt' h =>
        ⟨h.1, fun found hfound => ⟨found.1, found.2, h.2 found hfound, rfl⟩⟩
    · rw [Repository.cachedList_of_not_hasListKey hf]
      exact Action.follows_fail rfl
  | update k e =>
    exact hmap (fun _ => .done) (hchange (Repository.follows_storedUpdate e)
      (Repository.follows_forgetEntry hplain e.code))
  | delete k c =>
    exact hmap (fun _ => .done) (hchange (Repository.follows_storedDelete c)
      (Repository.follows_forgetReferences hplain c))
  | contains k c => exact hmap Reply.present (Repository.follows_storedContains c)

end CostCatalog
