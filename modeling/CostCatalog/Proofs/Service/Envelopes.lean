import CostCatalog.Proofs.Repository.Failing
import CostCatalog.Proofs.Service.Results

/-!
# Envelopes tell the truth

Whatever fault a call of a repository ends with, short of a cancellation, and whatever goes wrong with
the cache, every request is answered with an envelope, and what the envelope says of the store is so,
`envelopes_tell_truth`. The one change that an operation makes is the last thing in it that can fail: all
that comes after it is to show what was made, and that always goes through.
-/

namespace CostCatalog.Service

variable {k : Kind}

/-! ## Visits -/

/-- A visit: a request, and the circumstances in which it is served. Any of the repositories' calls may
fail, with any fault but a cancellation, as long as a call that fails has no effect; the cache in front
of them, if there is one, may fail at any of its calls. There is no limit on the time it takes, and the
clock on the wall is one of UTC. -/
structure Visit where
  operation : Operation
  inner : Repositories
  sound : ∀ k, (inner k).IsSound
  /-- How long entries are kept, if the repositories stand behind the cache. -/
  ttl : Option (Kind → Int)
  actor : String
  wall : Timestamp
  utc : wall.offset = some 0
  monotonic : Float
  mishaps : List Mishap

namespace Visit

/-- The repositories that serve a visit. -/
def repositories (v : Visit) : Repositories :=
  match v.ttl with
  | none => v.inner
  | some ttl => fun k => (v.inner k).cached (ttl k)

/-- What a visit is served with. -/
def setting (v : Visit) : Setting := .of v.repositories v.actor none

/-- What lies ahead of a visit. -/
def prospect (v : Visit) (w : World) : Prospect :=
  { world := { w with wall := v.wall, monotonic := v.monotonic }, ahead := v.mishaps }

/-- The repositories of a visit read what the store holds when it is read. -/
def ReadsStore (v : Visit) : Prop :=
  v.ttl = none ∧ ∀ k, (v.inner k).Honest (fun _ => True) fun s s₀ => s₀ = s

end Visit

/-- What came of a visit: the store before it, what the command came to, what was answered, and the
store after it. -/
structure Account where
  visit : Visit
  before : Store
  handled : Except Fault visit.operation.Result
  answered : Except Fault Envelope
  after : Store

/-- The account of a visit that finds a world. -/
def Visit.account (v : Visit) (w : World) : Account where
  visit := v
  before := w.store
  handled := ((v.operation.command v.setting).performAmid (v.prospect w)).1
  answered := ((v.operation.serve v.setting).performAmid (v.prospect w)).1
  after := ((v.operation.serve v.setting).performAmid (v.prospect w)).2.world.store

/-- Visits one after the other. -/
def Visit.trace : List Visit → World → List Account
  | [], _ => []
  | v :: vs, w =>
    v.account w ::
      trace vs ((v.operation.serve v.setting).performAmid (v.prospect w)).2.world

namespace Operation

/-- An operation that makes an entry. -/
def IsCreation : Operation → Prop
  | .create .. => True
  | _ => False

/-- An operation that changes an entry. -/
def IsUpdate : Operation → Prop
  | .update .. => True
  | _ => False

/-- An operation that changes the store. -/
def IsChange : Operation → Prop
  | .create .. | .update .. | .delete .. => True
  | _ => False

instance (op : Operation) : Decidable op.IsCreation := by
  cases op <;> unfold IsCreation <;> infer_instance

end Operation

/-- A visit has changed the store as it was asked to, or has read what a store answers that the one
before it `shows`. -/
def Account.Done (a : Account) (shows : Store → Store → Prop) : Prop :=
  ∃ x, a.visit.operation.Yields shows a.visit.actor a.visit.wall a.before a.after x

/-- The store before a visit was already as the request would leave it. -/
def Account.Idle (a : Account) : Prop :=
  ∃ x, a.visit.operation.Yields (fun _ s₀ => s₀.Dated) a.visit.actor a.visit.wall a.before a.before x

/-- The status of a visit: that of the fault its command ended with, if it did. -/
def Account.status (a : Account) : String :=
  match a.handled with
  | .ok _ => if a.visit.operation.IsCreation then "201" else "200"
  | .error f => f.outcome.status

/-- What the envelope that answers a visit says of it is so. -/
structure Account.Tells (a : Account) (env : Envelope) : Prop where
  answered : a.answered = .ok env
  success : env.base.isSuccess = true ↔ ∃ x, a.handled = .ok x
  status : env.base.statusCode = a.status
  created : env.base.statusCode = "201" → env.base.isSuccess = true ∧ a.visit.operation.IsCreation
  done : env.base.isSuccess = true → a.Done fun _ s₀ => s₀.Dated
  refused : env.base.isSuccess = false → a.after = a.before ∧ env.IsBlank

/-! ## Statuses -/

private theorem status_ne_created (f : Fault) : f.outcome.status ≠ "201" := by
  have hrules : ∀ r ∈ outcomeRules, r.status ≠ "201" := by
    simp only [outcomeRules, List.forall_mem_cons, List.not_mem_nil, false_implies, implies_true,
      and_true]
    decide
  unfold Fault.outcome
  split
  · decide
  · split
    · next r hr => exact hrules r (List.mem_of_find?_eq_some hr)
    · decide

namespace Operation

theorem statusCode_success (op : Operation) :
    op.success.statusCode = if op.IsCreation then "201" else "200" := by
  cases op with
  | create k | get k | list k | update k | delete k => cases k <;> rfl

end Operation

/-! ## Changes are seen -/

namespace Operation

variable {actor : String} {now : Timestamp} {s s' : Store} {op : Operation} {x : op.Result}

/-- A change that was made over what the store held has left another store. -/
private theorem Yields.changes (h : op.Yields (fun s s₀ => s₀ = s) actor now s s' x)
    (hop : op.IsChange) (hnow : now.offset = some 0) : s' ≠ s := by
  rintro rfl
  cases op with
  | get | list => exact hop
  | create k r =>
    obtain ⟨habsent, hpresent⟩ := Store.row?_insert h.2
    rw [habsent] at hpresent
    cases hpresent
  | delete k code =>
    obtain ⟨c, -, hdelete⟩ := h
    obtain ⟨t, ht, hfound, -⟩ := Store.delete_ok hdelete
    have habsent := Store.row?_delete hdelete
    rw [Store.row?_of_table (Store.table?_of_writable ht)] at habsent
    rw [Table.contains, habsent] at hfound
    cases hfound
  | update k r =>
    -- The new time of change is later than the one on record.
    obtain ⟨s₀, old, rfl, hrow, hmakes, hupdate⟩ := h
    obtain ⟨old', hold', hrow'⟩ := Store.row?_update hupdate
    obtain rfl : old' = old := Option.some.inj (hold'.symm.trans hrow)
    have hsame := Option.some.inj (hrow'.symm.trans hrow)
    have hrises := hmakes.rises hnow (Store.row?_spec hrow).1
    rw [hsame] at hrises
    obtain ⟨t, ht, -, hlater⟩ := hrises.time
    have hlatest : old'.audit.latest = some t := by rw [Audit.latest, ht]; rfl
    exact Int.lt_irrefl _ (hlater t hlatest)

/-- What an operation other than an update has done does not depend on what it reads. -/
private theorem Yields.of_not_update {shows shows' : Store → Store → Prop}
    (h : op.Yields shows actor now s s' x) (hchange : op.IsChange) (hupdate : ¬ op.IsUpdate) :
    op.Yields shows' actor now s s' x := by
  cases op with
  | create | delete => exact h
  | update => exact (hupdate trivial).elim
  | get | list => exact hchange.elim

end Operation

/-! ## One visit -/

namespace Visit

variable {w : World}

/-- The repositories of a visit are sound, behind the cache too. -/
private theorem isSound_repository (v : Visit) (k : Kind) : (v.setting.repository k).IsSound := by
  rw [setting, Setting.repository_of, repositories]
  cases v.ttl with
  | none => exact v.sound k
  | some ttl => exact (v.sound k).cached (ttl k)

end Visit

namespace Account.Tells

variable {a : Account} {env : Envelope}

/-- A command that came to a result which is shown. -/
theorem of_ok {x : a.visit.operation.Result} (hhandled : a.handled = .ok x)
    (hanswered : a.answered = .ok env) (hbase : env.base = a.visit.operation.success)
    (hyields : a.visit.operation.Yields (fun _ s₀ => s₀.Dated) a.visit.actor a.visit.wall a.before
      a.after x) : a.Tells env := by
  have hsuccess : env.base.isSuccess = true := hbase ▸ a.visit.operation.isSuccess_success
  have hstatus : env.base.statusCode = a.status := by
    rw [hbase, Account.status, hhandled]
    exact a.visit.operation.statusCode_success
  refine ⟨hanswered, ⟨fun _ => ⟨x, hhandled⟩, fun _ => hsuccess⟩, hstatus,
    fun h => ⟨hsuccess, ?_⟩, fun _ => ⟨x, hyields⟩, fun h => ?_⟩
  · by_contra hother
    rw [hbase, a.visit.operation.statusCode_success, if_neg hother] at h
    exact absurd h (by decide)
  · rw [hsuccess] at h
    cases h

/-- A command that ended with a fault, whose status is told and nothing else. -/
theorem of_error {f g : Fault} (hhandled : a.handled = .error f)
    (hanswered : a.answered = .ok (a.visit.operation.blank (failed g)))
    (hstatus : g.outcome.status = f.outcome.status) (hstore : a.after = a.before) :
    a.Tells (a.visit.operation.blank (failed g)) := by
  have hbase := a.visit.operation.base_blank (failed g)
  have hfailure : (a.visit.operation.blank (failed g)).base.isSuccess = false := by rw [hbase]; rfl
  refine ⟨hanswered, ⟨fun h => ?_, fun ⟨x, hx⟩ => ?_⟩, ?_, fun h => ?_, fun h => ?_,
    fun _ => ⟨hstore, a.visit.operation.isBlank_blank _⟩⟩
  · rw [hfailure] at h
    cases h
  · rw [hhandled] at hx
    cases hx
  · rw [hbase, Account.status, hhandled]
    exact hstatus
  · rw [hbase] at h
    exact absurd h (status_ne_created g)
  · rw [hfailure] at h
    cases h

/-- A success is a change, unless there was nothing left to change. -/
private theorem isSuccess_iff_done_of_not_idle (h : a.Tells env) (hidle : ¬ a.Idle) :
    env.base.isSuccess = true ↔ a.Done fun _ s₀ => s₀.Dated := by
  refine ⟨h.done, fun hdone => ?_⟩
  by_contra hfailure
  have hstore := (h.refused (Bool.eq_false_iff.mpr hfailure)).1
  rw [Account.Done, hstore] at hdone
  exact hidle hdone

end Account.Tells

namespace Visit

variable {w : World}

/-- One visit is told of truthfully, and the next one finds everything sound again. -/
theorem tells (v : Visit) (hdated : w.store.Dated) (hrecalls : w.Recalls) :
    (∃ env, (v.account w).Tells env) ∧
      ((v.operation.serve v.setting).performAmid (v.prospect w)).2.IsSound := by
  have hsound : (v.prospect w).IsSound := ⟨hdated, hrecalls⟩
  obtain ⟨hgood, hdone, hrefused⟩ := Operation.served v.isSound_repository rfl hsound v.operation
  refine ⟨?_, hgood⟩
  cases hhandled : ((v.operation.command v.setting).performAmid (v.prospect w)).1 with
  | ok x =>
    obtain ⟨hanswered, hyields⟩ := hdone x hhandled
    obtain ⟨env, hshown, hbase⟩ := hyields.shown v.utc
    exact ⟨env, .of_ok hhandled (hanswered.trans hshown) hbase hyields⟩
  | error f =>
    obtain ⟨g, hstatus, hanswered, hstore⟩ := hrefused f hhandled
    exact ⟨_, .of_error hhandled hanswered hstatus hstore⟩

/-- A command that came to a result over what the store holds has done what it was asked to. -/
private theorem done_of_ok {v : Visit} (h : v.ReadsStore) {x : v.operation.Result}
    (hx : (v.account w).handled = .ok x) : (v.account w).Done fun s s₀ => s₀ = s := by
  have hhonest (k : Kind) :
      (v.setting.repository k).Honest (fun _ => True) fun s s₀ => s₀ = s := by
    rw [setting, Setting.repository_of, repositories, h.1]
    exact h.2 k
  obtain ⟨-, hserved⟩ := Operation.served hhonest rfl (p := v.prospect w) trivial v.operation
  exact ⟨x, (hserved.done x hx).2⟩

/-- Where it can be seen, a success is a change of the store as it was asked for. -/
theorem isSuccess_iff_done {v : Visit} {env : Envelope} (h : (v.account w).Tells env)
    (hchange : v.operation.IsChange) (hreads : v.ReadsStore ∨ ¬ v.operation.IsUpdate) :
    env.base.isSuccess = true ↔ (v.account w).Done fun s s₀ => s₀ = s := by
  constructor
  · intro hsuccess
    rcases hreads with hreads | hupdate
    · obtain ⟨x, hx⟩ := h.success.mp hsuccess
      exact done_of_ok hreads hx
    · obtain ⟨x, hyields⟩ := h.done hsuccess
      exact ⟨x, hyields.of_not_update hchange hupdate⟩
  · rintro ⟨x, hyields⟩
    by_contra hfailure
    exact hyields.changes hchange v.utc (h.refused (Bool.eq_false_iff.mpr hfailure)).1

end Visit

/-! ## Visits in a row -/

/-- Every visit is answered, and its envelope tells the truth: it is a success exactly when the command
came to a result, and then the store was changed as the request asks or read as it is shown; it is a
failure exactly when the command ended with a fault, and then the store is as it was, nothing is shown,
and the status is the one of that fault. A success is `201` for an entry that was made and `200` for all
else.

For a request to change the store a success is thus the same as the change being made. Only an update
behind a cache that was not dropped can find that the store was already as it would leave it, since the
entry that it reads may be one that the store has left behind; where the store itself is read, and for
all other changes, there is no such exception.

So it is at every visit of a row, whatever any call of the repositories raised and whatever went wrong
with the cache at this visit or at any before. An exception is taken to have a text, and to be no
cancellation. -/
theorem envelopes_tell_truth (visits : List Visit) {w : World} (hdated : w.store.Dated)
    (hrecalls : w.Recalls) : ∀ a ∈ Visit.trace visits w, ∃ env, a.Tells env ∧
      (a.visit.operation.IsChange →
        (¬ a.Idle → (env.base.isSuccess = true ↔ a.Done fun _ s₀ => s₀.Dated)) ∧
        (a.visit.ReadsStore ∨ ¬ a.visit.operation.IsUpdate →
          (env.base.isSuccess = true ↔ a.Done fun s s₀ => s₀ = s))) := by
  induction visits generalizing w with
  | nil => exact fun a ha => nomatch ha
  | cons v vs ih =>
    obtain ⟨⟨env, htells⟩, hsound⟩ := v.tells hdated hrecalls
    intro a ha
    rcases List.mem_cons.mp ha with rfl | ha
    · exact ⟨env, htells, fun hchange => ⟨htells.isSuccess_iff_done_of_not_idle, fun hreads =>
        Visit.isSuccess_iff_done htells hchange hreads⟩⟩
    · exact ih hsound.dated hsound.recalls a ha

/-- The pound is to be made while the store times out, and then the kilogram is to get another name
while every call of the cache fails. -/
def outage : List Visit :=
  let down : List Mishap := List.replicate 3 { failure := some "down" }
  let stored (faults : Method → Option Fault) (k : Kind) : Repository k :=
    (Repositories.stored k).failing faults
  have sound {faults : Method → Option Fault}
      (hfaults : ∀ m, ∀ f ∈ faults m, f.isCancellation = false) (k : Kind) :
      (stored faults k).IsSound :=
    ((Repositories.stored_honest k).isSound (Repositories.stored_isBare k)).failing hfaults
  let visit (operation : Operation) (faults : Method → Option Fault)
      (hfaults : ∀ m, ∀ f ∈ faults m, f.isCancellation = false) : Visit :=
    { operation, inner := stored faults, sound := sound hfaults, ttl := some fun _ => 60, actor := "ada"
      wall := .epoch, utc := Sample.utc_epoch, monotonic := 0.0, mishaps := down }
  [visit (.create .uom { code := "LB", name := "Pound", category := .stated .weight, isBase := false })
    (fun m => if m = .create then some (.unexpected (.raised .timeout "")) else none)
    (fun m f hf => by cases m <;> cases hf; rfl),
   visit (.update .uom { code := "KG", name := "Kilo", category := .stated .weight, isBase := true })
    (fun _ => none) fun _ _ hf => nomatch hf]

/-- Neither fault goes unseen: the pound is not there and its envelope says so, and the kilogram is
renamed although nothing of it could be dropped from the cache. -/
theorem envelopes_tell_truth_outage :
    Sample.shelved.store.Dated ∧ Sample.shelved.Recalls ∧
      ∃ refused made : Account, Visit.trace outage Sample.shelved = [refused, made] ∧
        (∃ env, refused.answered = .ok env ∧ env.base.statusCode = "500" ∧
          refused.after = refused.before) ∧
        ∃ env, made.answered = .ok env ∧ env.base.statusCode = "200" ∧
          made.Done fun _ s₀ => s₀.Dated := by
  have hdated : Sample.shelved.store.Dated := by
    intro k c e he
    cases k with
    | uom =>
      obtain ⟨t, ht, hfind⟩ := Option.bind_eq_some_iff.mp he
      cases ht
      obtain rfl := List.mem_singleton.mp (List.mem_of_find?_eq_some hfind)
      exact ⟨.epoch, rfl⟩
    | parameter =>
      obtain ⟨t, ht, hfind⟩ := Option.bind_eq_some_iff.mp he
      cases ht
      cases hfind
  have hrecalls : Sample.shelved.Recalls := by
    intro c hc
    cases hc
    exact fun slot hslot => by cases hslot
  have htells := envelopes_tell_truth outage hdated hrecalls
  have hseen : (Visit.trace outage Sample.shelved).map (fun a => (a.status, a.handled.isOk)) =
      [("500", false), ("200", true)] := by decide +kernel
  obtain ⟨refused, made, htrace⟩ : ∃ refused made, Visit.trace outage Sample.shelved =
      [refused, made] := ⟨_, _, rfl⟩
  rw [htrace] at htells hseen
  simp only [List.map_cons, List.map_nil, List.cons.injEq, Prod.mk.injEq, and_true] at hseen
  obtain ⟨⟨hrefused, hfault⟩, hmade, hresult⟩ := hseen
  refine ⟨hdated, hrecalls, refused, made, htrace, ?_, ?_⟩
  · obtain ⟨env, henv, -⟩ := htells refused (List.mem_cons_self ..)
    have hfailure : env.base.isSuccess = false := by
      by_contra hsuccess
      obtain ⟨x, hx⟩ := henv.success.mp (Bool.eq_true_of_not_eq_false hsuccess)
      rw [hx] at hfault
      cases hfault
    exact ⟨env, henv.answered, henv.status.trans hrefused, (henv.refused hfailure).1⟩
  · obtain ⟨env, henv, -⟩ := htells made (List.mem_cons_of_mem _ (List.mem_cons_self ..))
    refine ⟨env, henv.answered, henv.status.trans hmade, henv.done (henv.success.mpr ?_)⟩
    cases hhandled : made.handled with
    | ok x => exact ⟨x, rfl⟩
    | error f =>
      rw [hhandled] at hresult
      cases hresult

end CostCatalog.Service
