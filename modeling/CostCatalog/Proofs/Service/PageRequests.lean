import CostCatalog.Proofs.Pages
import CostCatalog.Proofs.Service.Results

/-!
# Requests for pages

Every number and every size of a page means some page, and every page is answered, be it past the end
of the list, as long as the store can skip the rows before it: `pages_answered_iff`. Numbers are held
to be at least one but never to be at most anything, so there are always pages so far on that their
offset is beyond what the store takes; these are answered with an internal error.
-/

namespace CostCatalog

variable {k : Kind}

/-- What an action comes to is made into something else. -/
theorem Action.ComesIf.map {α β : Type} {a : Action α} {good : Prospect → Prop} {passes : Prop}
    {x : Except Fault α} {s : Store} {p : Prospect} (h : a.ComesIf good passes x s p) (g : α → β) :
    (a >>= fun v => pure (g v)).ComesIf good passes (x.map g) s p := by
  obtain ⟨y, ⟨hgood, rfl, rfl⟩, hy⟩ := h
  refine ⟨_, .of_run (performAmid_map rfl g) rfl hgood, hy.imp (congrArg (Except.map g)) ?_⟩
  exact And.imp_left (Or.imp (congrArg (Except.map g)) (congrArg (Except.map g)))

/-- Over exact repositories a query for a page comes to what the store lists. -/
private theorem Command.list_comes {repos : Repositories} {good : Prospect → Prop}
    {lasts : Kind → Prop} (h : repos.Exact good lasts) {p : Prospect} (hp : good p) {q : Listing k}
    {f : Filter k} (hf : q.filter = .ok f) :
    (list (repos k) q).ComesIf good ((Call.list k f).Passes lasts p.world.store)
      ((p.world.store.listed f).map fun found => (found.1, found.2, f)) p.world.store p := by
  have hlist : list (repos k) q = (do
      let f ← Action.ofExcept q.filter
      let found ← (repos k).list f
      pure (found.1, found.2, f)) := by
    cases k <;> rfl
  rw [hlist, hf]
  exact (h.list hp f).map fun found => (found.1, found.2, f)

/-- The member of a set that a name states. -/
def Wire.Name.member? {α : Type} : Wire.Name α → Option α
  | .unspecified => none
  | .stated a => some a

/-! ## Answers -/

/-- An envelope shows the page that a filter asks for of a table in which the `matching` rows are those
that pass the filter. -/
structure Filter.PageShown (f : Filter k) (t : Table k) (matching : List (Entry k))
    (page : Wire.ListResponse (Service.Data k)) : Prop where
  mem : ∀ e, e ∈ matching ↔ e ∈ t.rows ∧ f.Matches e
  ascending : matching.Pairwise Entry.Before
  base : page.base.statusCode = "200" ∧ page.base.isSuccess = true
  data : ((matching.drop f.page.offset).take f.page.limit).mapM Service.entryData = .ok page.data
  past : matching.length ≤ f.page.offset → page.data = []
  position : ∃ pages : Int,
    page.pagination = some ⟨f.page.effective, f.page.limit, matching.length, pages⟩ ∧
      f.page.totalPages? matching.length = some pages ∧
        (matching.length ≤ 2 ^ 53 → pages = (matching.length ⌈/⌉ f.page.limit : Nat))

namespace Service

/-- The filter that a request asks for. No category, or one that is not stated, means all of them. -/
def Listing.asks : {k : Kind} → Listing k → Filter k
  | .uom, r =>
    { page := ⟨Wire.ListUoms.page r, Wire.ListUoms.pageSize r⟩
      category := (Wire.ListUoms.category r).bind Wire.Name.member?, activity := () }
  | .parameter, r =>
    { page := ⟨Wire.ListParameters.page r, Wire.ListParameters.pageSize r⟩
      category := (Wire.ListParameters.category r).bind Wire.Name.member?
      activity := Wire.ListParameters.isActive r }

/-- The wire names of the categories are those of the catalogue. -/
private theorem filter_query (r : Listing k) : r.query.filter = .ok r.asks := by
  cases k with
  | uom =>
    obtain ⟨page, size, category⟩ := r
    rcases category with _ | _ | c
    · rfl
    · rfl
    · cases c <;> rfl
  | parameter =>
    obtain ⟨page, size, category, isActive⟩ := r
    rcases category with _ | _ | c
    · rfl
    · rfl
    · cases c <;> rfl

/-! ## Requests -/

section

variable {lasts : Kind → Prop} {repos : Repositories} {actor : String} {limit : Option Duration}
  {w : World} {r : Listing k}

/-- What becomes of a request for a page is told by what the store lists, unless the request is turned
away. -/
theorem list_command (actor : String) (limit : Option Duration) (hw : Serving lasts repos w)
    (r : Listing k) :
    ∃ y, (((Operation.list k r).command (.of repos actor limit)).performAmid { world := w }).1 = y ∧
      (y = (w.store.listed r.asks).map (fun found => (found.1, found.2, r.asks)) ∨
        Call.TurnedAway y ∧ ¬ (Call.list k r.asks).Passes lasts w.store) := by
  rw [Operation.command, Setting.repository_of]
  obtain ⟨y, hcomes, hy⟩ := Command.list_comes (p := { world := w }) (Serving.exact lasts repos)
    ⟨rfl, hw⟩ (filter_query r)
  exact ⟨y, hcomes.outcome, hy⟩

private theorem list_answered (hlimit : Unspent limit) {found : (Operation.list k r).Result}
    (hcommand : (((Operation.list k r).command (.of repos actor limit)).performAmid { world := w }).1 =
      .ok found) :
    (((Operation.list k r).serve (.of repos actor limit)).perform w).1 =
      (Operation.list k r).shown found := by
  have hserved := (Operation.serve_run (.of repos actor limit) (.list k r) { world := w }).trans
    (answering_ok hlimit (Prod.ext hcommand rfl))
  rw [Action.performAmid_nil] at hserved
  exact congrArg Prod.fst hserved

theorem list_refused (hlimit : Unspent limit) {f : Fault} (hf : f.isCancellation = false)
    (hcommand : (((Operation.list k r).command (.of repos actor limit)).performAmid { world := w }).1 =
      .error f) :
    (((Operation.list k r).serve (.of repos actor limit)).perform w).1 =
      .ok (.page k { base := failed (reported (Operation.list k r).name limit f) }) := by
  have hserved := (Operation.serve_run (.of repos actor limit) (.list k r) { world := w }).trans
    (answering_error hlimit hf (Prod.ext hcommand rfl))
  rw [Action.performAmid_nil] at hserved
  exact congrArg Prod.fst hserved

end

/-- What a table shows of a page is the page. -/
private theorem pageShown_of_shown {t : Table k} {f : Filter k} {base : Wire.Base}
    (hbase : base.statusCode = "200" ∧ base.isSuccess = true) (hdated : ∀ e ∈ t.rows, e.Dated) :
    ∃ page, Operation.shownPage base (t.page f, ((t.selected f).length : Int), f) =
        .ok (.page k page) ∧ f.PageShown t (t.selected f) page := by
  have htimed : ∀ e ∈ t.page f, e.audit.IsTimed := fun e he => by
    have hrow := Table.mem_selected.mp (List.mem_of_mem_drop (List.mem_of_mem_take he))
    exact (t.stored e hrow.1).isTimed (hdated e hrow.1)
  obtain ⟨data, hdata⟩ := exists_mapM_entryData htimed
  obtain ⟨pages, hpages⟩ : ∃ pages, f.page.totalPages? (t.selected f).length = some pages :=
    Quotient.exists_roundedCeiling?
      ((List.length_filter_le ..).trans_lt t.length_rows_lt) f.page.limit_pos
  have hposition : pagination f.page (t.selected f).length =
      .ok ⟨f.page.effective, f.page.limit, (t.selected f).length, pages⟩ := by
    rw [pagination, hpages]
  refine ⟨_, Operation.shownPage_ok hdata hposition, ?_⟩
  refine ⟨fun e => Table.mem_selected, t.ascending_selected f, hbase, hdata, fun hpast => ?_,
    pages, rfl, hpages, fun htotal => ?_⟩
  · have hnone : t.page f = [] := by
      rw [Table.page, List.drop_of_length_le hpast, List.take_nil]
    rw [hnone] at hdata
    cases hdata
    rfl
  · exact Option.some.inj (hpages.symm.trans (Page.totalPages?_of_le htotal))

/-- Over a working store, with the cache or without it, whatever the number and the size of a page and
whatever is chosen: a request for a page is answered with the rows on that page if and only if the store
can skip the rows before it. If it cannot, the answer is an internal error. The cache, if there is one,
keeps pages for a time that a double holds. -/
theorem pages_answered_iff {lasts : Kind → Prop} (hlasts : lasts k) {repos : Repositories}
    (actor : String) {limit : Option Duration} (hlimit : Unspent limit) {w : World}
    (hw : Serving lasts repos w) {t : Table k} (ht : w.store.table? k = some t)
    (hdated : ∀ e ∈ t.rows, e.Dated) (r : Listing k) :
    ((∃ matching page, (((Operation.list k r).serve (.of repos actor limit)).perform w).1 =
        .ok (.page k page) ∧ r.asks.PageShown t matching page) ↔
      r.asks.page.offset ≤ Store.maxOffset) ∧
    (Store.maxOffset < r.asks.page.offset →
      (((Operation.list k r).serve (.of repos actor limit)).perform w).1 =
        .ok (.page k { base := internalError })) := by
  obtain ⟨y, hcommand, hy⟩ := list_command actor limit hw r
  rw [Store.listed_of_table ht] at hy
  have hfar (h : Store.maxOffset < r.asks.page.offset) :
      (((Operation.list k r).serve (.of repos actor limit)).perform w).1 =
        .ok (.page k { base := internalError }) := by
    rw [if_pos h] at hy
    rcases hy with rfl | ⟨rfl | rfl, -⟩ <;> exact list_refused hlimit rfl hcommand
  refine ⟨⟨fun ⟨matching, page, hanswered, hshown⟩ => ?_, fun hreach => ?_⟩, hfar⟩
  · refine Nat.not_lt.mp fun h => ?_
    cases hanswered.symm.trans (hfar h)
    exact absurd hshown.base.2 Bool.noConfusion
  · have hpasses : (Call.list k r.asks).Passes lasts w.store :=
      ⟨Store.hasListKey_of_offset_le hreach, fun _ => hlasts⟩
    rw [if_neg (Nat.not_lt.mpr hreach), or_iff_left fun h => h.2 hpasses] at hy
    have hsuccess : (Operation.list k r).success.statusCode = "200" ∧
        (Operation.list k r).success.isSuccess = true := by
      cases k <;> exact ⟨rfl, rfl⟩
    obtain ⟨page, hpage, hshown⟩ := pageShown_of_shown (f := r.asks) hsuccess hdated
    exact ⟨_, page, (list_answered hlimit (hcommand.trans hy)).trans hpage, hshown⟩

/-- A page before the first one, with more rows than a page can have: the first hundred rows. -/
def beforeFirst : Wire.ListUoms := { page := -7, pageSize := 1000 }

theorem pages_answered_iff_beforeFirst :
    Unspent none ∧ Serving (fun _ => True) (.cached fun _ => 60) Sample.shelved ∧ ∃ t : Table .uom,
      Sample.shelved.store.table? .uom = some t ∧ (∀ e ∈ t.rows, e.Dated) ∧
        ∃ matching page, (((Operation.list .uom beforeFirst).serve
            (.of (.cached fun _ => 60) "ada" none)).perform Sample.shelved).1 =
              .ok (.page .uom page) ∧
          (Listing.asks (k := .uom) beforeFirst).PageShown t matching page := by
  have hlimit : Unspent none := rfl
  have hserving := Sample.serving_shelved fun _ => True
  have hdated : ∀ e ∈ [Sample.kilogram "Kilogram"], Entry.Dated (k := .uom) e :=
    List.forall_mem_singleton.mpr ⟨.epoch, rfl⟩
  obtain ⟨matching, page, hanswered, hshown⟩ :=
    (pages_answered_iff (k := .uom) trivial "ada" hlimit hserving rfl hdated beforeFirst).1.mpr
      (by decide)
  exact ⟨hlimit, hserving, _, rfl, hdated, matching, page, hanswered, hshown⟩

/-- A page so far on that the rows before it are more than 64 bits can count. -/
def remote : Wire.ListUoms := { page := 922337203685477582, pageSize := 10 }

/-- The remote page lies past the end of the list, and is answered with an internal error. -/
theorem remote_not_answered :
    (Listing.asks (k := .uom) remote).page.offset = 2 ^ 63 + 2 ∧
      (((Operation.list .uom remote).serve (.of .stored "ada" none)).perform Sample.stocked).1 =
        .ok (.page .uom { base := ⟨"500", false, "Internal server error", []⟩ }) := by
  have hfar : Store.maxOffset < (Listing.asks (k := .uom) remote).page.offset := by decide
  have hlimit : Unspent none := rfl
  have hserving : Serving (fun _ => True) .stored Sample.stocked := .stored Sample.stocked
  obtain ⟨y, hcommand, hy⟩ := list_command (k := .uom) "ada" none hserving remote
  rw [Store.listed_of_table (s := Sample.stocked.store) (k := .uom) rfl, if_pos hfar] at hy
  refine ⟨by decide, ?_⟩
  rcases hy with rfl | ⟨rfl | rfl, -⟩ <;> exact list_refused hlimit rfl hcommand

end Service

end CostCatalog
