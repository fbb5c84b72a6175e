import CostCatalog.Proofs.Cache.Transparency
import CostCatalog.Proofs.Number.Ceiling

/-!
# Paging through a list

Whoever reads the pages of a list one after the other sees every entry that matches the filter
exactly once and in the order of the codes, `Call.pages_cover`. This is a matter of three parts: the
pages cut the matching rows into stretches of one length, the number of pages is the exact ceiling,
and a repository answers each page out of the same rows, with or without the cache.
-/

namespace CostCatalog

variable {k : Kind}

/-! ## Stretches of a list -/

/-- Stretches of one length, put together, are the list up to where the last one ends. -/
private theorem flatMap_stretches {α : Type} (xs : List α) (size count : Nat) :
    (List.range count).flatMap (fun i => (xs.drop (i * size)).take size) =
      xs.take (count * size) := by
  induction count with
  | zero => rw [List.range_zero, List.flatMap_nil, Nat.zero_mul, List.take_zero]
  | succ count ih =>
    rw [List.range_succ, List.flatMap_append, ih, List.flatMap_singleton, Nat.succ_mul,
      ← List.take_add]

/-! ## Numbers of pages -/

namespace Page

variable {p : Page}

theorem offset_of_pos {i : Nat} (h : p.number = i + 1) : p.offset = i * p.limit := by
  have heffective : p.effective - 1 = i := by
    unfold effective
    split <;> omega
  rw [offset, heffective]

theorem offset_of_nonpos (h : p.number ≤ 0) : p.offset = 0 := by
  have heffective : p.effective = 1 := if_neg (Int.not_lt.mpr h)
  rw [offset, heffective, Nat.sub_self, Nat.zero_mul]

/-- The number of pages is the exact ceiling for totals up to `2^53`. -/
theorem totalPages?_of_le {total : Nat} (h : total ≤ 2 ^ 53) :
    p.totalPages? total = some ((total ⌈/⌉ p.limit : Nat) : Int) :=
  Quotient.roundedCeiling?_of_le h p.limit_pos (p.limit_le.trans (by decide))

end Page

/-! ## Pages of a list -/

theorem Table.mem_selected {t : Table k} {f : Filter k} {e : Entry k} :
    e ∈ t.selected f ↔ e ∈ t.rows ∧ f.Matches e := by
  rw [selected, List.mem_filter, Filter.selects_iff]

theorem Table.ascending_selected (t : Table k) (f : Filter k) :
    (t.selected f).Pairwise Entry.Before := t.sorted.filter _

namespace Filter

/-- The filter for another page of the same list. -/
def onPage (f : Filter k) (n : Int) : Filter k := { f with page := ⟨n, f.page.size⟩ }

/-- The row range of a page of the list that `rows` are the matching entries of. -/
def stretch (f : Filter k) (rows : List (Entry k)) (n : Int) : List (Entry k) :=
  (rows.drop (f.onPage n).page.offset).take f.page.limit

private theorem page_onPage (t : Table k) (f : Filter k) (n : Int) :
    t.page (f.onPage n) = f.stretch (t.selected f) n := rfl

/-- What the pages of a list show of a table. -/
structure PagesThrough (f : Filter k) (t : Table k) (matching : List (Entry k)) (pages : Nat)
    (page : Int → List (Entry k)) : Prop where
  /-- The matching entries, each once, in strictly ascending order. -/
  mem : ∀ e, e ∈ matching ↔ e ∈ t.rows ∧ f.Matches e
  ascending : matching.Pairwise Entry.Before
  count : f.page.totalPages? matching.length = some (pages : Int)
  concat : ((List.range pages).flatMap fun i : Nat => page (i + 1)) = matching
  full : ∀ n : Nat, 0 < n → n < pages → (page n).length = f.page.limit
  last : 0 < pages → 0 < (page pages).length ∧ (page pages).length ≤ f.page.limit
  beyond : ∀ n : Int, pages < n → page n = []
  first : ∀ n : Int, n ≤ 0 → page n = page 1
  /-- The store can skip the rows before each of the pages. -/
  reachable : ∀ n : Int, n ≤ pages → (f.onPage n).page.offset ≤ Store.maxOffset

private theorem pagesThrough_stretch (f : Filter k) {t : Table k} (hrows : t.rows.length ≤ 2 ^ 53) :
    f.PagesThrough t (t.selected f) ((t.selected f).length ⌈/⌉ f.page.limit)
      (f.stretch (t.selected f)) := by
  have htotal : (t.selected f).length ≤ 2 ^ 53 := (List.length_filter_le ..).trans hrows
  have hlimit := f.page.limit_pos
  -- Pages are counted from one, offsets from none.
  have hoffset (i : Nat) : (f.onPage (i + 1)).page.offset = i * f.page.limit :=
    Page.offset_of_pos rfl
  have hlength (i : Nat) : (f.stretch (t.selected f) (i + 1)).length =
      min f.page.limit ((t.selected f).length - i * f.page.limit) := by
    rw [stretch, hoffset, List.length_take, List.length_drop]
  -- A page is among those that are counted when there are rows behind its offset.
  have hcounted (i : Nat) : i < (t.selected f).length ⌈/⌉ f.page.limit ↔
      i * f.page.limit < (t.selected f).length := by
    rw [← Nat.not_le, ceilDiv_le_iff_le_mul hlimit, Nat.not_le, Nat.mul_comm]
  have hcount := Page.totalPages?_of_le (p := f.page) htotal
  generalize (t.selected f).length ⌈/⌉ f.page.limit = pages at hcounted hcount ⊢
  refine ⟨fun e => Table.mem_selected, t.ascending_selected f, hcount,
    ?concat, ?full, ?last, ?beyond, ?first, ?reachable⟩
  case concat =>
    have hstretches : ((List.range pages).flatMap fun i : Nat =>
        f.stretch (t.selected f) (i + 1)) = (t.selected f).take (pages * f.page.limit) := by
      rw [← flatMap_stretches]
      refine congrArg (List.flatMap · _) (funext fun i => ?_)
      rw [stretch, hoffset]
    rw [hstretches]
    exact List.take_of_length_le (Nat.not_lt.mp fun h => Nat.lt_irrefl _ ((hcounted pages).mpr h))
  case full =>
    intro n hpos hn
    obtain ⟨i, rfl⟩ : ∃ i, n = i + 1 := ⟨n - 1, by omega⟩
    have hrest := (hcounted (i + 1)).mp hn
    rw [Nat.succ_mul] at hrest
    rw [Nat.cast_succ, hlength]
    omega
  case last =>
    intro hpos
    obtain ⟨i, rfl⟩ : ∃ i, pages = i + 1 := ⟨pages - 1, by omega⟩
    have hrest := (hcounted i).mp (Nat.lt_succ_self i)
    rw [Nat.cast_succ, hlength]
    omega
  case beyond =>
    intro n hn
    obtain ⟨i, rfl⟩ : ∃ i : Nat, n = i + 1 := ⟨(n - 1).toNat, by omega⟩
    have hrest : ¬ i * f.page.limit < (t.selected f).length := fun h => by
      have := (hcounted i).mpr h
      omega
    rw [stretch, hoffset, List.drop_of_length_le (Nat.not_lt.mp hrest), List.take_nil]
  case first =>
    intro n hn
    have hzero : (f.onPage n).page.offset = (f.onPage 1).page.offset := by
      rw [Page.offset_of_nonpos hn, ← Nat.zero_mul f.page.limit]
      exact (hoffset 0).symm
    rw [stretch, stretch, hzero]
  case reachable =>
    intro n hn
    rcases Int.lt_or_le 0 n with hpos | hnonpos
    · obtain ⟨i, rfl⟩ : ∃ i : Nat, n = i + 1 := ⟨(n - 1).toNat, by omega⟩
      have hrest := (hcounted i).mp (by omega)
      rw [hoffset, Store.maxOffset]
      omega
    · rw [Page.offset_of_nonpos hnonpos]
      exact Nat.zero_le _

end Filter

/-! ## Lists that are asked for -/

/-- The answer of a store to a page that it can reach. -/
private theorem Store.listed_onPage {s : Store} {t : Table k} (h : s.table? k = some t) (f : Filter k)
    {n : Int} (hn : (f.onPage n).page.offset ≤ maxOffset) :
    s.listed (f.onPage n) =
      .ok (f.stretch (t.selected f) n, ((t.selected f).length : Int)) := by
  rw [listed_of_table h, if_neg (Nat.not_lt.mpr hn), Filter.page_onPage]
  rfl

namespace Call

variable {repos : Repositories}

/-- Lists asked for one after the other are all answered out of the same store, if each of them is
and leaves the world fit for the next. -/
private theorem trace_lists (good : World → Prop)
    (hclock : ∀ w clock, good w → good { w with monotonic := clock })
    (reads : List (Float × Filter k))
    (hlist : ∀ read ∈ reads, ∀ w, good w → ∃ w',
      ((repos k).list read.2).perform w = (w.store.listed read.2, w') ∧ w'.store = w.store ∧
        good w')
    {w : World} (hw : good w) :
    trace repos (reads.map fun read => (read.1, .list k read.2)) w =
      reads.map fun read =>
        ((w.store.listed read.2).map fun found => .page k found.1 found.2, w.store) := by
  induction reads generalizing w with
  | nil => rfl
  | cons read reads ih =>
    obtain ⟨hread, hreads⟩ := List.forall_mem_cons.mp hlist
    obtain ⟨w', hrun, hstore, hw'⟩ := hread _ (hclock w read.1 hw)
    have hcall : (Call.on repos (.list k read.2)).perform { w with monotonic := read.1 } =
        ((w.store.listed read.2).map fun found => Reply.page k found.1 found.2, w') :=
      Action.perform_map hrun fun found => Reply.page k found.1 found.2
    rw [List.map_cons, List.map_cons, trace, hcall]
    refine List.cons_eq_cons.mpr ⟨?_, ?_⟩
    · rw [hstore]
    · rw [ih hreads hw', hstore]

/-- Reading pages one after the other, at any readings of the clock and in any order, straight from
the store or through a cache that is coherent with it and keeps pages for a time that a double holds:
every page comes with the number of matching
entries, the pages that this number fills show each of these once and in order, and the store stays
as it is. -/
theorem pages_cover {w : World} {t : Table k} (htable : w.store.table? k = some t)
    (hrows : t.rows.length ≤ 2 ^ 53) (f : Filter k)
    (hrepos : repos = .stored ∨
      ∃ ttl stem, repos = .cached ttl ∧ Cache.CanLast (ttl k) ∧ w.Serves stem) :
    ∃ matching pages page, f.PagesThrough t matching pages page ∧
      ∀ reads : List (Float × Int),
        (∀ read ∈ reads, (f.onPage read.2).page.offset ≤ Store.maxOffset) →
          trace repos (reads.map fun read => (read.1, .list k (f.onPage read.2))) w =
            reads.map fun read => (.ok (.page k (page read.2) matching.length), w.store) := by
  refine ⟨_, _, _, f.pagesThrough_stretch hrows, fun reads hreads => ?_⟩
  have hlists : trace repos
      ((reads.map fun read => (read.1, f.onPage read.2)).map fun read =>
        (read.1, .list k read.2)) w =
        (reads.map fun read => (read.1, f.onPage read.2)).map fun read =>
          ((w.store.listed read.2).map fun found => .page k found.1 found.2, w.store) := by
    rcases hrepos with rfl | ⟨ttl, stem, rfl, hlast, hserves⟩
    · refine trace_lists (fun _ => True) (fun _ _ h => h) _ (fun read _ w _ => ?_) trivial
      obtain ⟨records, hrun⟩ := Repository.performs_storedList w read.2
      exact ⟨_, hrun, rfl, trivial⟩
    · refine trace_lists (fun w => w.Serves stem) (fun _ clock h => h.clocked clock) _
        (fun read hread w h => ?_) hserves
      obtain ⟨read, hmem, rfl⟩ := List.mem_map.mp hread
      -- A page that the store can reach has a short number, and so a key.
      obtain ⟨y, w', hrun, hstore, hserves', hy⟩ := Repository.cachedList_spec h (ttl k)
        (fun _ => trivial) (Store.hasListKey_of_offset_le (hreads read hmem))
      rw [hy.eq_of_canLast hlast] at hrun
      exact ⟨w', hrun, hstore, hserves'⟩
  rw [List.map_map] at hlists
  refine hlists.trans ?_
  rw [List.map_map]
  refine List.map_congr_left fun read hread => ?_
  rw [Function.comp_apply, Store.listed_onPage htable f (hreads read hread)]
  rfl

/-- The second page is read before the first one and then the first one again, under a number below
one, out of a cache that starts empty. -/
theorem pages_cover_cached :
    Sample.shelved.Serves "v1:" ∧ ∃ t matching pages page,
      Sample.shelved.store.table? .uom = some t ∧ t.rows.length ≤ 2 ^ 53 ∧
        ({ activity := () } : Filter .uom).PagesThrough t matching pages page ∧
          trace (.cached fun _ => 60) ([(1.0, 2), (2.0, 1), (0.5, -3)].map fun read =>
              (read.1, .list .uom (Filter.onPage { activity := () } read.2))) Sample.shelved =
            [(1.0, 2), (2.0, 1), (0.5, -3)].map fun read : Float × Int =>
              (.ok (.page .uom (page read.2) matching.length), Sample.shelved.store) := by
  have hserves : Sample.shelved.Serves "v1:" :=
    .of_empty {} rfl rfl
  have hrows : [Sample.kilogram "Kilogram"].length ≤ 2 ^ 53 := Nat.one_le_two_pow
  obtain ⟨matching, pages, page, hpages, htrace⟩ := pages_cover (k := .uom) rfl hrows
    { activity := () } (Or.inr ⟨fun _ => 60, "v1:", rfl, by decide +kernel, hserves⟩)
  exact ⟨hserves, _, matching, pages, page, rfl, hrows, hpages, htrace _ (by decide)⟩

end Call

end CostCatalog
