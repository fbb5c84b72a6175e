import CostCatalog.Proofs.Cache.Recollection
import CostCatalog.Proofs.Codes
import CostCatalog.Proofs.Number.Ceiling
import CostCatalog.Proofs.Rfc3339
import CostCatalog.Proofs.Service.Pipeline
import CostCatalog.Proofs.Command.Trail

/-!
# Results and how they are shown

What an operation has done to the store when its command comes to a result, `Operation.Yields`, and
that every such result can be shown, `Operation.Yields.shown`: there is always a wire text for the times
on record, since they are of UTC, and always a number of pages, since there are only so many codes.
-/

namespace CostCatalog

variable {k : Kind}

/-! ## What can be shown -/

/-- The making is on record, and all times are of UTC. -/
structure Audit.IsTimed (a : Audit) : Prop where
  made : ∃ t ∈ a.createdAt, t.offset = some 0
  changed : ∀ t ∈ a.updatedAt, t.offset = some 0

theorem Timestamp.utc_of_map_stored {o : Option Timestamp} (h : o.map stored = o) :
    ∀ t ∈ o, t.offset = some 0 := by
  intro t ht
  rw [ht] at h
  rw [← Option.some.inj h]
  rfl

/-- What the store holds is timed, if the making is on record. -/
theorem Entry.IsStored.isTimed {e : Entry k} (h : e.IsStored) (hdated : e.Dated) :
    e.audit.IsTimed := by
  obtain ⟨t, ht⟩ := hdated
  exact ⟨⟨t, ht, Timestamp.utc_of_map_stored h.audit.created t ht⟩,
    Timestamp.utc_of_map_stored h.audit.updated⟩

/-- A reading of UTC has a wire text. -/
theorem Timestamp.exists_toRfc3339? {t : Timestamp} (h : t.offset = some 0) :
    ∃ s, t.toRfc3339? = some s := by
  have hutc : t.toUtc? = some t := toUtc?_eq_some_iff.mpr ⟨h, (instant_of_utc h).symm⟩
  exact ⟨_, congrArg (Option.map _) hutc⟩

/-- A list that a store gives is a page of one of its tables. -/
theorem Store.listed_ok {s : Store} {f : Filter k} {found : List (Entry k) × Int}
    (h : s.listed f = .ok found) :
    ∃ t, s.table? k = some t ∧ found = (t.page f, ((t.selected f).length : Int)) := by
  cases ht : s.table? k with
  | none =>
    have hgone : s.count f = .error (gone k) := by
      rw [count, readable, ht]
      rfl
    rw [listed, hgone] at h
    cases h
  | some t =>
    rw [listed_of_table ht] at h
    split at h
    · cases h
    · cases h
      exact ⟨t, rfl, rfl⟩

/-- What a store lists are rows of it. -/
theorem Store.row?_of_listed {s : Store} {f : Filter k} {found : List (Entry k) × Int}
    (h : s.listed f = .ok found) : ∀ e ∈ found.1, s.row? e.code = some e := by
  obtain ⟨t, ht, rfl⟩ := listed_ok h
  intro e he
  rw [row?_of_table ht]
  exact Table.find?_of_mem
    (List.mem_filter.mp (List.mem_of_mem_drop (List.mem_of_mem_take he))).1

namespace Service

/-- The position of a page in what a store lists can be shown. -/
private theorem exists_pagination {s : Store} {f : Filter k} {found : List (Entry k) × Int}
    (h : s.listed f = .ok found) (p : Page) : ∃ position, pagination p found.2 = .ok position := by
  obtain ⟨t, -, rfl⟩ := Store.listed_ok h
  obtain ⟨n, hn⟩ : ∃ n, p.totalPages? (t.selected f).length = some n :=
    Quotient.exists_roundedCeiling?
      ((List.length_filter_le ..).trans_lt t.length_rows_lt) p.limit_pos
  exact ⟨⟨p.effective, p.limit, (t.selected f).length, n⟩, by rw [pagination, hn]⟩

/-- The audit fields of an entry that is timed can be shown. -/
private theorem exists_auditInfo {a : Audit} (h : a.IsTimed) : ∃ i, auditInfo a = .ok i := by
  obtain ⟨⟨t, ht, hutc⟩, hchanged⟩ := h
  obtain ⟨made, hmade⟩ := Timestamp.exists_toRfc3339? hutc
  have hcreated : timeText a.createdAt = .ok (some made) := by rw [ht, timeText, hmade]
  have hupdated : ∃ text, timeText a.updatedAt = .ok text := by
    cases hat : a.updatedAt with
    | none => exact ⟨none, rfl⟩
    | some u =>
      obtain ⟨text, htext⟩ := Timestamp.exists_toRfc3339? (hchanged u hat)
      exact ⟨some text, by rw [timeText, htext]⟩
  obtain ⟨text, htext⟩ := hupdated
  refine ⟨⟨made, a.createdBy, text, a.updatedBy⟩, ?_⟩
  rw [auditInfo, hcreated, htext]
  rfl

theorem exists_entryData {e : Entry k} (h : e.audit.IsTimed) : ∃ data, entryData e = .ok data := by
  obtain ⟨i, hi⟩ := exists_auditInfo h
  cases k with
  | uom =>
    change auditInfo (Uom.audit e) = .ok i at hi
    exact ⟨_, by rw [entryData, uomData, hi]; rfl⟩
  | parameter =>
    change auditInfo (Parameter.audit e) = .ok i at hi
    exact ⟨_, by rw [entryData, parameterData, hi]; rfl⟩

theorem exists_mapM_entryData {entries : List (Entry k)} (h : ∀ e ∈ entries, e.audit.IsTimed) :
    ∃ data, entries.mapM entryData = .ok data := by
  induction entries with
  | nil => exact ⟨[], rfl⟩
  | cons e entries ih =>
    obtain ⟨data, hdata⟩ := exists_entryData (h e (List.mem_cons_self ..))
    obtain ⟨rest, hrest⟩ := ih fun x hx => h x (List.mem_cons_of_mem e hx)
    exact ⟨data :: rest, by rw [List.mapM_cons, hdata, hrest]; rfl⟩

/-! ## Results -/

namespace Operation

/-- What an operation has done when its command results in `x`: at the reading `now` of the clock it
has changed the store `s` to `s'` as the request asks, or has read what a store answers that `s`
shows. -/
def Yields (shows : Store → Store → Prop) (actor : String) (now : Timestamp) (s s' : Store) :
    (op : Operation) → op.Result → Prop
  | .create _ r, e => (r.command actor).Makes now e ∧ s.insert e = .ok s'
  | .get _ code, e => s' = s ∧ e.code.text = code ∧ ∃ s₀, shows s s₀ ∧ s₀.row? e.code = some e
  | .list _ r, found => s' = s ∧ ∃ s₀ f, shows s s₀ ∧ r.query.filter = .ok f ∧
      s₀.listed f = .ok (found.1, found.2.1) ∧ found.2.2 = f
  | .update _ r, e => ∃ s₀ old, shows s s₀ ∧ s₀.row? e.code = some old ∧
      (r.command actor).Makes now old e ∧ s.update e = .ok (true, s')
  | .delete k code, _ => ∃ c : Code k, c.text = code ∧ s.delete c = .ok (true, s')

/-- Over honest repositories the command of an operation is all or nothing. -/
private theorem command_allOrNothing {setting : Setting} {good : Prospect → Prop}
    {shows : Store → Store → Prop} (h : ∀ k, (setting.repository k).Honest good shows) {p : Prospect}
    (hp : good p) (op : Operation) : (op.command setting).AllOrNothing good
      (fun x s => op.Yields shows setting.actor p.world.wall p.world.store s x) p := by
  cases op with
  | create k r => exact Command.create_allOrNothing (h k) hp _
  | get k code => exact Command.get_allOrNothing (h k) hp code
  | list k r => exact Command.list_allOrNothing (h k) hp r.query
  | update k r => exact Command.update_allOrNothing (h k) hp _
  | delete k code => exact Command.delete_allOrNothing (h k) hp code

/-- How a request is served from a prospect: a command that comes to a result has done what is asked,
and the result is shown; one that ends with a fault has left the store alone, and the status of the
fault is told. -/
structure Served (op : Operation) (setting : Setting) (shows : Store → Store → Prop) (p : Prospect) :
    Prop where
  done : ∀ x, ((op.command setting).performAmid p).1 = .ok x →
    ((op.serve setting).performAmid p).1 = op.shown x ∧
      op.Yields shows setting.actor p.world.wall p.world.store
        ((op.serve setting).performAmid p).2.world.store x
  refused : ∀ f, ((op.command setting).performAmid p).1 = .error f →
    ∃ g : Fault, g.outcome.status = f.outcome.status ∧
      ((op.serve setting).performAmid p).1 = .ok (op.blank (failed g)) ∧
      ((op.serve setting).performAmid p).2.world.store = p.world.store

/-- Over honest repositories every request is served so. -/
theorem served {setting : Setting} {good : Prospect → Prop} {shows : Store → Store → Prop}
    (h : ∀ k, (setting.repository k).Honest good shows) (hlimit : Unspent setting.limit)
    {p : Prospect} (hp : good p) (op : Operation) :
    good ((op.serve setting).performAmid p).2 ∧ op.Served setting shows p := by
  obtain ⟨hgood, hdone, hrefused, huncancelled⟩ := command_allOrNothing h hp op
  have hserve := serve_run setting op p
  cases hrun : (op.command setting).performAmid p with
  | mk outcome p' =>
    rw [hrun] at hgood hdone hrefused huncancelled
    cases outcome with
    | ok x =>
      rw [answering_ok hlimit hrun] at hserve
      rw [hserve]
      refine ⟨hgood, fun y hy => ?_, fun f hf => ?_⟩
      · rw [hrun] at hy
        cases hy
        rw [hserve]
        exact ⟨rfl, hdone x rfl⟩
      · rw [hrun] at hf
        cases hf
    | error f =>
      rw [answering_error hlimit (huncancelled f rfl) hrun] at hserve
      rw [hserve]
      have hlogged := p'.answer_idle
        (r := .log (failureRecord op.name (reported op.name setting.limit f))) trivial
      refine ⟨(h .uom).idle trivial hgood, fun y hy => ?_, fun e he => ?_⟩
      · rw [hrun] at hy
        cases hy
      · rw [hrun] at he
        cases he
        rw [hserve]
        exact ⟨_, status_reported .., rfl, hlogged.store.trans (hrefused f rfl)⟩

end Operation

end Service

/-- An entry that is made is timed, by a clock of UTC. -/
theorem Command.Creation.Makes.isTimed {cmd : Command.Creation k} {now : Timestamp} {e : Entry k}
    (h : cmd.Makes now e) (hnow : now.offset = some 0) : e.audit.IsTimed := by
  rw [h.audit]
  exact ⟨⟨now, rfl, hnow⟩, fun t ht => nomatch ht⟩

/-- An entry that is changed is timed, by a clock of UTC. -/
theorem Command.Update.Makes.isTimed {cmd : Command.Update k} {now : Timestamp} {old e : Entry k}
    (h : cmd.Makes now old e) (hnow : now.offset = some 0) (hold : old.IsStored)
    (hdated : old.Dated) : e.audit.IsTimed := by
  obtain ⟨t, ht, haudit⟩ := h.audit
  rw [haudit]
  refine ⟨(hold.isTimed hdated).made, ?_⟩
  rintro u hu
  cases hu
  exact Audit.offset_nextTime ht hnow hold.audit.latest_utc

namespace Service.Operation

variable {actor : String} {now : Timestamp} {s s' : Store} {op : Operation} {x : op.Result}

theorem shownPage_ok {k : Kind} {base : Wire.Base} {found : List (Entry k) × Int × Filter k}
    {data : List (Data k)} {position : Wire.Pagination} (hdata : found.1.mapM entryData = .ok data)
    (hposition : pagination found.2.2.page found.2.1 = .ok position) :
    shownPage base found = .ok (.page k { base, data, pagination := some position }) := by
  rw [shownPage, hdata]
  simp only [bind, Except.bind, hposition]

theorem exists_shownItem {k : Kind} {e : Entry k} (base : Wire.Base) (h : e.audit.IsTimed) :
    ∃ env, shownItem base e = .ok env ∧ env.base = base := by
  obtain ⟨data, hdata⟩ := exists_entryData h
  exact ⟨.item k { base, data := some data }, by rw [shownItem, hdata]; rfl, rfl⟩

/-- Whatever an operation results in can be shown, and is shown with the status of a success. -/
theorem Yields.shown (h : op.Yields (fun _ s₀ => s₀.Dated) actor now s s' x)
    (hnow : now.offset = some 0) : ∃ env, op.shown x = .ok env ∧ env.base = op.success := by
  cases op with
  | create k r => exact exists_shownItem _ (h.1.isTimed hnow)
  | get k code =>
    obtain ⟨-, -, s₀, hdated, hrow⟩ := h
    exact exists_shownItem _ ((Store.row?_spec hrow).1.isTimed (hdated k _ _ hrow))
  | update k r =>
    obtain ⟨s₀, old, hdated, hrow, hmakes, -⟩ := h
    exact exists_shownItem _ (hmakes.isTimed hnow (Store.row?_spec hrow).1 (hdated k _ _ hrow))
  | delete k code => exact ⟨_, rfl, rfl⟩
  | list k r =>
    obtain ⟨-, s₀, f, hdated, -, hlisted, -⟩ := h
    have hrows := Store.row?_of_listed hlisted
    have htimed : ∀ e ∈ x.1, e.audit.IsTimed := fun e he =>
      (Store.row?_spec (hrows e he)).1.isTimed (hdated k _ _ (hrows e he))
    obtain ⟨data, hdata⟩ := exists_mapM_entryData htimed
    obtain ⟨position, hposition⟩ := exists_pagination hlisted x.2.2.page
    refine ⟨.page k { base := success (.list k r), data, pagination := some position }, ?_, rfl⟩
    exact shownPage_ok hdata hposition

end Service.Operation

end CostCatalog
