import CostCatalog.Proofs.AuditTrail
import CostCatalog.Proofs.Command.Successes
import CostCatalog.Proofs.Repository.Holdings

/-!
# The audit trail of a run

What an update does to the audit fields of an entry survives the way through the store and the cache:
from one successful update of a code to the next the time on record rises, whatever the clock does and
whatever else is asked in between, `audit_trail`. The times that are stored are those that the entry
was given, since the clock and what was read are of UTC.
-/

namespace CostCatalog

variable {k : Kind}

/-! ## Runs -/

/-- A demand, and what the clocks read when it is met. The clock on the wall is one of UTC. -/
structure Errand where
  demand : Demand
  wall : Timestamp
  utc : wall.offset = some 0
  monotonic : Float

/-- How a demand was met: the store before it, what came of it, and the store after it. -/
structure Episode where
  errand : Errand
  before : Store
  outcome : Except Fault Unit
  after : Store

/-- Demands met one after the other. -/
def Errand.trace (repos : Repositories) : List Errand → World → List Episode
  | [], _ => []
  | e :: es, w =>
    let (outcome, w') :=
      (e.demand.meet repos).perform { w with wall := e.wall, monotonic := e.monotonic }
    ⟨e, w.store, outcome, w'.store⟩ :: trace repos es w'

/-- The kind and the code of the entry that a demand is to change. -/
def Demand.updated? : Demand → Option (Kind × String)
  | .instruct (.update k cmd) => some (k, cmd.codeText)
  | _ => none

namespace Episode

/-- A demand that was a successful update of the entry with a code. -/
def Updates (ep : Episode) (c : Code k) : Prop :=
  ep.errand.demand.updated? = some c.key ∧ ep.outcome.isOk = true

instance (ep : Episode) (c : Code k) : Decidable (ep.Updates c) := by
  unfold Updates
  infer_instance

/-- What an errand does to the audit fields of an entry that is stored before it. -/
structure KeepsTrail (ep : Episode) (e : Entry k) : Prop where
  rises : ep.Updates e.code → ∃ e', ep.after.row? e.code = some e' ∧
    e.audit.Rises ep.errand.wall e'.audit
  stays : ¬ ep.Updates e.code → ∀ e', ep.after.row? e.code = some e' → e'.audit = e.audit

/-- The times on record after the successful updates of a code, as long as there is an entry. -/
def updateTimes (c : Code k) : List Episode → List (Option Timestamp)
  | [] => []
  | ep :: eps =>
    match ep.after.row? c with
    | none => []
    | some e => if ep.Updates c then e.audit.updatedAt :: updateTimes c eps else updateTimes c eps

end Episode

/-! ## One errand -/

/-- The row that an update leaves has risen. -/
theorem Command.Update.Makes.rises {cmd : Command.Update k} {now : Timestamp} {old e : Entry k}
    (h : cmd.Makes now old e) (hnow : now.offset = some 0) (hold : old.IsStored) :
    old.audit.Rises now (e.replaced old).audit := by
  obtain ⟨t, ht, haudit⟩ := h.audit
  have hutc : t.offset = some 0 := Audit.offset_nextTime ht hnow hold.audit.latest_utc
  obtain ⟨hclock, hlatest⟩ := Audit.nextTime_rises ht
  rw [Entry.replaced, Entry.audit_withAudit, haudit]
  refine ⟨rfl, rfl, t, ?_, hclock, hlatest⟩
  rw [Audit.replaced, Option.map_some, Timestamp.stored_of_utc hutc]

/-- What a demand does to the audit fields of a row: an update of its code makes them rise, and nothing
else touches them as long as the row is there. -/
private theorem Demand.Effect.keepsTrail {d : Demand} {now : Timestamp} (hnow : now.offset = some 0)
    {s s' : Store} (h : d.Effect (fun s s₀ => s₀ = s) now s s') {e : Entry k}
    (he : s.row? e.code = some e) :
    (d.updated? = some e.code.key → ∃ e', s'.row? e.code = some e' ∧ e.audit.Rises now e'.audit) ∧
      (d.updated? ≠ some e.code.key → ∀ e', s'.row? e.code = some e' → e'.audit = e.audit) := by
  have hsame (hrow : s'.row? e.code = s.row? e.code) :
      ∀ e', s'.row? e.code = some e' → e'.audit = e.audit := by
    intro e' he'
    rw [hrow, he] at he'
    cases he'
    rfl
  cases d with
  | instruct i =>
    cases i with
    | create j cmd =>
      obtain ⟨new, -, hinsert⟩ := h
      refine ⟨fun hkey => (nomatch hkey), fun _ => ?_⟩
      by_cases hkey : e.code.key = new.code.key
      · obtain rfl : k = j := congrArg Prod.fst hkey
        have hfree := (Store.row?_insert hinsert).1
        rw [← Code.key_injective hkey, he] at hfree
        cases hfree
      · exact hsame (Store.row?_insert_of_ne hinsert hkey)
    | update j cmd =>
      obtain ⟨_, old, new, rfl, hold, hmakes, hupdate⟩ := h
      have hkey : (Demand.instruct (.update j cmd)).updated? = some new.code.key := by
        rw [updated?, ← hmakes.codeText, Code.key]
      rw [hkey, ne_eq, Option.some.injEq]
      refine ⟨fun hcode => ?_, fun hcode => ?_⟩
      · obtain rfl : j = k := congrArg Prod.fst hcode
        have hcode := Code.key_injective hcode
        rw [← hcode] at he ⊢
        obtain ⟨old', hold', hrow⟩ := Store.row?_update hupdate
        obtain rfl : old' = e := Option.some.inj (hold'.symm.trans he)
        obtain rfl : old = old' := Option.some.inj (hold.symm.trans hold')
        exact ⟨_, hrow, hmakes.rises hnow (Store.row?_spec hold').1⟩
      · exact hsame (Store.row?_update_of_ne hupdate fun h => hcode h.symm)
    | delete j code =>
      obtain ⟨c, -, hdelete⟩ := h
      refine ⟨fun hkey => (nomatch hkey), fun _ => ?_⟩
      by_cases hkey : e.code.key = c.key
      · obtain rfl : k = j := congrArg Prod.fst hkey
        intro e' he'
        rw [Code.key_injective hkey, Store.row?_delete hdelete] at he'
        cases he'
      · rcases Store.row?_delete_of_ne hdelete hkey with hrow | ⟨old, hold, -, -, hrow⟩
        · exact hsame hrow
        · intro e' he'
          rw [hrow] at he'
          rw [he] at hold
          cases he'
          cases hold
          exact Entry.audit_unreferenced e
  | get | list => exact ⟨fun hkey => (nomatch hkey), fun _ => hsame (by rw [show s' = s from h])⟩

namespace Errand

variable {lasts : Kind → Prop} {repos : Repositories} {w : World}

/-- One demand met. -/
theorem meet_serving (h : Serving lasts repos w) (e : Errand) :
    let run := (e.demand.meet repos).perform { w with wall := e.wall, monotonic := e.monotonic }
    Serving lasts repos run.2 ∧ ∀ {k : Kind} {x : Entry k}, w.store.row? x.code = some x →
      (Episode.mk e w.store run.1 run.2.store).KeepsTrail x := by
  have hrun := Demand.meet_allOrNothing (Serving.honest lasts repos)
    (p := { world := { w with wall := e.wall, monotonic := e.monotonic } })
    ⟨rfl, h.clocked e.wall e.monotonic⟩ e.demand
  obtain ⟨⟨-, hgood⟩, hdone, hrefused, -⟩ := hrun
  simp only [Action.performAmid_nil] at hgood hdone hrefused
  refine ⟨hgood, ?_⟩
  intro k x hx
  generalize (e.demand.meet repos).perform { w with wall := e.wall, monotonic := e.monotonic } =
    run at hdone hrefused
  obtain ⟨outcome, w'⟩ := run
  cases outcome with
  | ok _ =>
    obtain ⟨hrises, hstays⟩ := (hdone () rfl).keepsTrail e.utc hx
    exact ⟨fun h => hrises h.1, fun h => hstays fun hkey => h ⟨hkey, rfl⟩⟩
  | error f =>
    have hstore : w'.store = w.store := hrefused f rfl
    refine ⟨fun h => (nomatch h.2), fun _ e' he' => ?_⟩
    rw [show (Episode.mk e w.store (.error f) w'.store).after = w.store from hstore, hx] at he'
    cases he'
    rfl

/-- What a run of demands does to the rows, one after the other. -/
theorem trace_keepsTrail (errands : List Errand) {w : World} (h : Serving lasts repos w) :
    ∀ ep ∈ trace repos errands w, ∀ {k : Kind} {x : Entry k}, ep.before.row? x.code = some x →
      ep.KeepsTrail x := by
  induction errands generalizing w with
  | nil => exact fun ep hep => nomatch hep
  | cons e es ih =>
    obtain ⟨hserving, hkeeps⟩ := meet_serving h e
    intro ep hep
    rcases List.mem_cons.mp hep with rfl | hep
    · exact hkeeps
    · exact ih hserving ep hep

/-- From one successful update of a code to the next the time on record rises, as long as there is an
entry. -/
theorem updateTimes_ascending (errands : List Errand) {w : World} (h : Serving lasts repos w)
    {e : Entry k} (he : w.store.row? e.code = some e) :
    ∃ times : List Timestamp, Episode.updateTimes e.code (trace repos errands w) = times.map some ∧
      (e.audit.latest.toList ++ times).Pairwise fun t u => t.instant < u.instant := by
  induction errands generalizing w e with
  | nil => exact ⟨[], rfl, by cases e.audit.latest <;> simp⟩
  | cons d ds ih =>
    obtain ⟨hserving, hkeeps⟩ := meet_serving h d
    obtain ⟨hrises, hstays⟩ := hkeeps he
    simp only [trace, Episode.updateTimes]
    split
    · exact ⟨[], rfl, by cases e.audit.latest <;> simp⟩
    next e' he' =>
    have hcode : e'.code = e.code := (Store.row?_spec he').2
    obtain ⟨times, htimes, hascending⟩ := ih hserving (hcode ▸ he')
    rw [hcode] at htimes
    split
    · next hupdates =>
      obtain ⟨x, hx, hrisen⟩ := hrises hupdates
      obtain rfl : x = e' := Option.some.inj (hx.symm.trans he')
      obtain ⟨t, ht, -, hlater⟩ := hrisen.time
      have hlatest : x.audit.latest = some t := by rw [Audit.latest, ht]; rfl
      rw [hlatest] at hascending
      refine ⟨t :: times, by rw [ht, htimes]; rfl, ?_⟩
      cases hbefore : e.audit.latest with
      | none => exact hascending
      | some p =>
        have hfirst := hlater p hbefore
        refine List.pairwise_cons.mpr ⟨?_, hascending⟩
        intro u hu
        rcases List.mem_cons.mp hu with rfl | hu
        · exact hfirst
        · exact Int.lt_trans hfirst ((List.pairwise_cons.mp hascending).1 u hu)
    · next hupdates =>
      rw [← hstays hupdates e' he']
      exact ⟨times, htimes, hascending⟩

end Errand

/-! ## The trail -/

/-- However an entry was made and whatever changes it has gone through, each at its own reading of the
clock, the next change leaves its code and its making alone; if it is an update that succeeds, the time
of it is later than the last one on record and not before the clock, and else the trail stays as it was.

So it is with what is stored, over any run of commands and queries, with the cache or without it: a
successful update of a code makes its trail rise, nothing else touches the trail of an entry that stays,
and the times stored by one successful update after another ascend to the microsecond for as long as
there is an entry. -/
theorem audit_trail :
    (∀ {k : Kind} (e : Entry k) (edits : List (Timestamp × Entry.Edit k)) (now : Timestamp)
      (ed : Entry.Edit k),
      ((e.editEach edits).edit now ed).2.code = e.code ∧
      ((e.editEach edits).edit now ed).2.audit.createdAt = e.audit.createdAt ∧
      ((e.editEach edits).edit now ed).2.audit.createdBy = e.audit.createdBy ∧
      (ed.IsUpdate ∧ ((e.editEach edits).edit now ed).1 = .ok () →
        (e.editEach edits).audit.Rises now ((e.editEach edits).edit now ed).2.audit) ∧
      (¬ (ed.IsUpdate ∧ ((e.editEach edits).edit now ed).1 = .ok ()) →
        ((e.editEach edits).edit now ed).2.audit = (e.editEach edits).audit)) ∧
    ∀ {lasts : Kind → Prop} {repos : Repositories} {w : World} (errands : List Errand),
      Serving lasts repos w →
      (∀ ep ∈ Errand.trace repos errands w, ∀ {k : Kind} {e : Entry k},
        ep.before.row? e.code = some e → ep.KeepsTrail e) ∧
      ∀ {k : Kind} {e : Entry k}, w.store.row? e.code = some e → ∃ times : List Timestamp,
        Episode.updateTimes e.code (Errand.trace repos errands w) = times.map some ∧
        (e.audit.latest.toList ++ times).Pairwise fun t u => t.instant < u.instant := by
  constructor
  · intro k e edits now ed
    obtain ⟨hcode, hat, hby⟩ := Entry.making_editEach e edits
    obtain ⟨hat', hby'⟩ := Entry.making_edit now (e.editEach edits) ed
    refine ⟨(Entry.code_edit now _ ed).trans hcode, hat'.trans hat, hby'.trans hby, ?_⟩
    rcases Entry.audit_edit now (e.editEach edits) ed with ⟨hupdate, hok, hrises⟩ | ⟨hnot, hsame⟩
    · exact ⟨fun _ => hrises, fun h => (h ⟨hupdate, hok⟩).elim⟩
    · exact ⟨fun h => (hnot h).elim, fun _ => hsame⟩
  · intro lasts repos w errands h
    exact ⟨Errand.trace_keepsTrail errands h, Errand.updateTimes_ascending errands h⟩

/-- The world in which the kilogram is shelved is served through its cache. -/
theorem Sample.serving_shelved (lasts : Kind → Prop) :
    Serving lasts (.cached fun _ => 60) shelved := by
  have hplain : ∀ c ∈ "v1:".toList, Glob.IsPlain c := Glob.isPlain_of_all rfl
  exact .cached (fun _ _ => by decide +kernel) hplain (.of_empty {} rfl rfl)

/-- The kilogram is renamed, shown and renamed again while the clock stands still. -/
def renames : List Errand :=
  [.instruct (.update .uom Sample.rename), .get .uom "KG", .instruct (.update .uom Sample.rename)].map
    fun demand => { demand, wall := .epoch, utc := Sample.utc_epoch, monotonic := 0.0 }

/-- Two renamings of the kilogram, made through the cache while the clock stands still, are told apart
by the times that are stored. -/
theorem audit_trail_frozen_clock :
    Serving (fun _ => True) (.cached fun _ => 60) Sample.shelved ∧
      Sample.shelved.store.row? (Entry.code (k := .uom) (Sample.kilogram "Kilogram")) =
        some (Sample.kilogram "Kilogram") ∧
      ∃ times : List Timestamp, times.length = 2 ∧
        (Timestamp.epoch :: times).Pairwise fun t u => t.instant < u.instant := by
  have hserving := Sample.serving_shelved fun _ => True
  have hrow : Sample.shelved.store.row? (Entry.code (k := .uom) (Sample.kilogram "Kilogram")) =
      some (Sample.kilogram "Kilogram") := by decide
  obtain ⟨times, htimes, hascending⟩ := (audit_trail.2 renames hserving).2 hrow
  have hcount : (Episode.updateTimes (Entry.code (k := .uom) (Sample.kilogram "Kilogram"))
      (Errand.trace (.cached fun _ => 60) renames Sample.shelved)).length = 2 := by decide +kernel
  refine ⟨hserving, hrow, times, ?_, hascending⟩
  rw [htimes, List.length_map] at hcount
  exact hcount

end CostCatalog
