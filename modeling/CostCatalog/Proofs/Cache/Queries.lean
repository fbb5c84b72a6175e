import CostCatalog.Proofs.Cache.Keys
import CostCatalog.Proofs.Records
import CostCatalog.Proofs.Repository.Stored
import CostCatalog.Proofs.Store

/-!
# Queries and the changes that touch them

A query is what is read through the cache: the entry with a code or the page of a filter. What the
store answers to a query is a record, `Store.record?`, and the key of a query determines it. A change
touches the queries whose answers it can alter; every other answer stays as it is.
-/

namespace CostCatalog

/-- What is read through the cache. -/
inductive Query where
  | entry (k : Kind) (c : Code k)
  | list (k : Kind) (f : Filter k)

namespace Query

/-- The kind that is asked for. -/
def kind : Query → Kind
  | .entry k _ => k
  | .list k _ => k

/-- The cache key of a query. -/
def key : Query → String
  | .entry _ c => Filter.entryKey c
  | .list _ f => f.listKey

/-- Whether a query has a cache key at all: a page whose number has too many digits has none. -/
def hasKey : Query → Bool
  | .entry _ _ => true
  | .list _ f => f.hasListKey

/-- The cache key of a query, if it has one. -/
def key? : Query → Except Fault String
  | .entry _ c => .ok (Filter.entryKey c)
  | .list _ f => f.listKey?

/-- The call that asks a query. -/
def call : Query → Call
  | .entry k c => .find k c
  | .list k f => .list k f

/-- A record that renders an answer to a query: of an entry, or a page of entries, in normal form. -/
def Renders : Query → Json → Prop
  | .entry k _, v => ∃ e : Entry k, e.IsStored ∧ v = Record.ofEntry e
  | .list k _, v => ∃ (entries : List (Entry k)) (total : Int), (∀ e ∈ entries, e.IsStored) ∧
      v = Record.ofPage entries total

/-- What a record that is found under the key of a query is read as. -/
def read : Query → Json → Except Fault Reply
  | .entry k _, v => (Record.toEntry k v).map (.entry k)
  | .list k _, v => (Record.toPage k v).map fun found => .page k found.1 found.2

theorem Renders.wellNamed {q : Query} {v : Json} (h : q.Renders v) : v.WellNamed := by
  cases q with
  | entry k c =>
    obtain ⟨e, -, rfl⟩ := h
    exact Record.wellNamed_ofEntry e
  | list k f =>
    obtain ⟨entries, total, -, rfl⟩ := h
    exact Record.wellNamed_ofPage entries total

/-- All that can stand in the way of writing an answer is the number of digits of a total. -/
theorem Renders.obstacle_eq_digits {q : Query} {v : Json} (h : q.Renders v) {depth : Json.Depth}
    {o : Json.Obstacle} (ho : v.obstacle? depth.levels = some o) : o = .digits := by
  cases q with
  | entry k c =>
    obtain ⟨e, -, rfl⟩ := h
    have hnone := Option.isNone_iff_eq_none.mp (Record.isWritable_ofEntry e depth)
    rw [hnone] at ho
    cases ho
  | list k f =>
    obtain ⟨entries, total, -, rfl⟩ := h
    rw [Record.obstacle?_ofPage] at ho
    split at ho <;> cases ho
    rfl

/-- Whether an answer can be written does not depend on how deep values may be nested. -/
theorem Renders.isWritable_congr {q : Query} {v : Json} (h : q.Renders v) (d d' : Json.Depth) :
    v.isWritable d = v.isWritable d' := by
  cases q with
  | entry k c =>
    obtain ⟨e, -, rfl⟩ := h
    rw [Record.isWritable_ofEntry, Record.isWritable_ofEntry]
  | list k f =>
    obtain ⟨entries, total, -, rfl⟩ := h
    rw [Record.isWritable_ofPage, Record.isWritable_ofPage]

theorem keySpace_prefix_key (q : Query) : (Filter.keySpace q.kind).toList <+: q.key.toList := by
  cases q with
  | entry k c => exact Filter.keySpace_prefix_entryKey c
  | list k f => exact Filter.keySpace_prefix_listKey f

/-- Queries of one key are of one kind. -/
theorem kind_eq_of_key_eq {p q : Query} (h : p.key = q.key) : p.kind = q.kind :=
  Filter.kind_eq_of_prefix p.keySpace_prefix_key (h ▸ q.keySpace_prefix_key)

end Query

namespace Store

variable {s s' : Store} {k : Kind}

/-- The record of the store's answer to a query; nothing when it answers with a fault. -/
def record? (s : Store) : Query → Option Json
  | .entry _ c => (s.found c).toOption.map Record.ofEntry
  | .list _ f => (s.listed f).toOption.map fun found => Record.ofPage found.1 found.2

/-- The store has an answer to a query, and it can be written as a text: a page can unless the total
has too many digits. -/
def Keepable (s : Store) : Query → Prop
  | .entry _ c => ∃ e, s.found c = .ok e
  | .list _ f => ∃ entries total, s.listed f = .ok (entries, total) ∧ Decimal.isShort total = true

theorem keepable_iff {q : Query} (depth : Json.Depth) :
    s.Keepable q ↔ ∃ v, s.record? q = some v ∧ v.isWritable depth = true := by
  cases q with
  | entry k c =>
    rw [Keepable, record?]
    cases s.found c with
    | error f => exact iff_of_false (fun ⟨_, h⟩ => nomatch h) fun ⟨_, h, _⟩ => nomatch h
    | ok e => exact iff_of_true ⟨e, rfl⟩ ⟨_, rfl, Record.isWritable_ofEntry e depth⟩
  | list k f =>
    rw [Keepable, record?]
    cases s.listed f with
    | error g => exact iff_of_false (fun ⟨_, _, h, _⟩ => nomatch h) fun ⟨_, h, _⟩ => nomatch h
    | ok found =>
      constructor
      · rintro ⟨entries, total, hfound, htotal⟩
        cases hfound
        exact ⟨_, rfl, (Record.isWritable_ofPage entries total depth).trans htotal⟩
      · rintro ⟨v, hv, hwritable⟩
        cases hv
        exact ⟨found.1, found.2, rfl, (Record.isWritable_ofPage _ _ depth).symm.trans hwritable⟩

/-! ## Keys and answers -/

/-- Two filters that mean the same page of the same selection have the same answer. -/
theorem listed_congr {f g : Filter k} (hcategory : f.category = g.category)
    (hactivity : f.activity = g.activity) (heffective : f.page.effective = g.page.effective)
    (hlimit : f.page.limit = g.page.limit) : s.listed f = s.listed g := by
  have hselects : f.selects = g.selects := by
    funext e
    rw [Filter.selects, Filter.selects, hcategory, hactivity]
  have hoffset : f.page.offset = g.page.offset := by
    rw [Page.offset, Page.offset, heffective, hlimit]
  have hcount : s.count f = s.count g := by
    unfold count Table.selected
    rw [hselects]
  have hpage : s.page f = s.page g := by
    unfold page Table.page Table.selected
    rw [hselects, hoffset, hlimit]
  rw [listed, listed, hcount, hpage]

/-- The key of a query determines its answer. -/
theorem record?_of_key_eq {q q' : Query} (h : q.key = q'.key) : s.record? q = s.record? q' := by
  have hkind := Query.kind_eq_of_key_eq h
  cases q with
  | entry k c =>
    cases q' with
    | entry k' c' =>
      cases hkind
      rw [Filter.entryKey_inj h]
    | list k' f =>
      cases hkind
      exact absurd h (Filter.entryKey_ne_listKey c f)
  | list k f =>
    cases q' with
    | entry k' c =>
      cases hkind
      exact absurd h.symm (Filter.entryKey_ne_listKey c f)
    | list k' g =>
      cases hkind
      obtain ⟨hcategory, hactivity, heffective, hlimit⟩ := Filter.listKey_inj h
      rw [record?, record?, listed_congr hcategory hactivity heffective hlimit]

/-! ## Answers in normal form -/

theorem found_isStored {c : Code k} {e : Entry k} (h : s.found c = .ok e) : e.IsStored := by
  unfold found find readable at h
  cases ht : s.table? k with
  | none => rw [ht] at h; cases h
  | some t =>
    rw [ht] at h
    simp only [bind, Except.bind] at h
    cases hf : t.find? c with
    | none => rw [hf] at h; cases h
    | some e' =>
      rw [hf] at h
      cases h
      exact (Table.find?_spec hf).1

theorem page_isStored {f : Filter k} {entries : List (Entry k)} (h : s.page f = .ok entries) :
    ∀ e ∈ entries, e.IsStored := by
  unfold page readable at h
  split at h
  · cases h
  · cases ht : s.table? k with
    | none => rw [ht] at h; cases h
    | some t =>
      rw [ht] at h
      cases h
      intro e he
      exact t.stored e (List.mem_filter.mp (List.mem_of_mem_drop (List.mem_of_mem_take he))).1

theorem listed_isStored {f : Filter k} {entries : List (Entry k)} {total : Int}
    (h : s.listed f = .ok (entries, total)) : ∀ e ∈ entries, e.IsStored := by
  unfold listed at h
  split at h
  · next hpage =>
    cases h
    exact page_isStored hpage
  · cases h
  · cases h

/-- What the store answers to a query renders an answer to it. -/
theorem renders_of_record? {q : Query} {v : Json} (h : s.record? q = some v) : q.Renders v := by
  cases q with
  | entry k c =>
    cases hf : s.found c with
    | error f => rw [record?, hf] at h; cases h
    | ok e =>
      rw [record?, hf] at h
      exact ⟨e, found_isStored hf, (Option.some.inj h).symm⟩
  | list k f =>
    cases hf : s.listed f with
    | error g => rw [record?, hf] at h; cases h
    | ok found =>
      rw [record?, hf] at h
      exact ⟨found.1, found.2, listed_isStored hf, (Option.some.inj h).symm⟩

/-- A page that the store can skip to has a number with few digits. -/
theorem hasListKey_of_offset_le {f : Filter k} (h : f.page.offset ≤ maxOffset) :
    f.hasListKey = true := by
  have hoffset : f.page.effective - 1 ≤ f.page.offset :=
    Nat.le_mul_of_pos_right _ f.page.limit_pos
  have hsmall : f.page.effective < 10 ^ 20 := by
    unfold maxOffset at h
    omega
  exact Decimal.isShort_iff.mpr (hsmall.trans_le (Nat.pow_le_pow_right (by decide) (by decide)))

/-- A query that the store answers has a key. -/
theorem hasKey_of_record? {q : Query} {v : Json} (h : s.record? q = some v) : q.hasKey = true := by
  cases q with
  | entry k c => rfl
  | list k f =>
    refine hasListKey_of_offset_le (Nat.le_of_not_lt fun hfar => ?_)
    have hpage : s.page f = .error .integerTooLarge := by rw [page, if_pos hfar]
    rw [record?, listed, hpage] at h
    cases hcount : s.count f <;> rw [hcount] at h <;> cases h

/-- A record that renders an answer is read as that answer; and a store that gives the answer
answers with the record. -/
theorem read_of_renders {q : Query} {v : Json} (h : q.Renders v) : ∃ reply, q.read v = .ok reply ∧
    ∀ s : Store, (s.answer q.call).1 = .ok reply → s.record? q = some v := by
  cases q with
  | entry k c =>
    obtain ⟨e, he, rfl⟩ := h
    refine ⟨.entry k e, ?_, ?_⟩
    · rw [Query.read, Record.toEntry_ofEntry he.audit.legible]
      rfl
    · intro s hs
      change (s.found c).map (Reply.entry k) = _ at hs
      cases hf : s.found c with
      | error f => rw [hf] at hs; cases hs
      | ok e' =>
        rw [hf] at hs
        cases hs
        rw [record?, hf]
        rfl
  | list k f =>
    obtain ⟨entries, total, hentries, rfl⟩ := h
    refine ⟨.page k entries total, ?_, ?_⟩
    · rw [Query.read, Record.toPage_ofPage total fun e he => (hentries e he).audit.legible]
      rfl
    · intro s hs
      change ((s.listed f).map fun found => Reply.page k found.1 found.2) = _ at hs
      cases hf : s.listed f with
      | error g => rw [hf] at hs; cases hs
      | ok found =>
        obtain ⟨entries', total'⟩ := found
        rw [hf] at hs
        cases hs
        rw [record?, hf]
        rfl

end Store

/-! ## Changes -/

/-- A change of the entry with a code, which may end it. -/
structure Change where
  kind : Kind
  code : Code kind
  ends : Bool := false

namespace Change

/-- Whether a change reaches all entries of a kind: the end of a unit can clear it from any
parameter. -/
def Sweeps (ch : Change) (j : Kind) : Prop := ch.ends = true ∧ ch.kind = .uom ∧ j = .parameter

/-- Whether a change can alter the answer to a query. -/
def Touches (ch : Change) : Query → Prop
  | .entry j c => Filter.entryKey c = Filter.entryKey ch.code ∨ ch.Sweeps j
  | .list j _ => j = ch.kind ∨ ch.Sweeps j

/-- A query is not touched by a change when its key is not the entry's own, not among the lists of
its kind and, if the change ends a unit, not among all that is kept of parameters. -/
theorem not_touches {ch : Change} {q : Query} {stem : String}
    (hplain : ∀ c ∈ stem.toList, Glob.IsPlain c) (hown : q.key ≠ Filter.entryKey ch.code)
    (hlist : Glob.isMatch (stem ++ Filter.listPattern ch.kind) (stem ++ q.key) = false)
    (hall : ch.ends = true → ch.kind = .uom →
      Glob.isMatch (stem ++ Filter.allPattern .parameter) (stem ++ q.key) = false) :
    ¬ ch.Touches q := by
  have hswept : ¬ ch.Sweeps q.kind := by
    rintro ⟨hends, huom, hkind⟩
    apply Bool.eq_false_iff.mp (hall hends huom)
    exact (Filter.matches_allPattern hplain .parameter q.key).mpr (hkind ▸ q.keySpace_prefix_key)
  intro h
  cases q with
  | entry j c => exact h.elim hown hswept
  | list j f =>
    refine h.elim (fun hj => ?_) hswept
    subst hj
    apply Bool.eq_false_iff.mp hlist
    exact (Filter.matches_listPattern hplain _ f.listKey).mpr f.list_prefix_listKey

end Change

namespace Store

variable {s s' : Store} {k : Kind}

/-- The answers of a kind are those of its table. -/
theorem record?_of_table? {q : Query} (h : s'.table? q.kind = s.table? q.kind) :
    s'.record? q = s.record? q := by
  cases q with
  | entry k c =>
    simp only [record?, found, find, readable, show s'.table? k = s.table? k from h]
  | list k f =>
    simp only [record?, listed, count, page, readable, show s'.table? k = s.table? k from h]

/-- The table of a kind with other rows at one code alone: what does not ask for that code, or for
a list, has the same answer. -/
theorem record?_withTable {t t' : Table k} {d : Code k} (ht : s.table? k = some t)
    (hrows : ∀ c, c ≠ d → t'.find? c = t.find? c) {ends : Bool} {q : Query}
    (hq : ¬ (Change.mk k d ends).Touches q) : (s.withTable t').record? q = s.record? q := by
  cases q with
  | list j f =>
    have hj : j ≠ k := fun h => hq (Or.inl h)
    exact record?_of_table? (table?_withTable_of_ne hj s t')
  | entry j c =>
    by_cases hj : j = k
    · subst hj
      have hc : c ≠ d := fun h => hq (Or.inl (congrArg Filter.entryKey h))
      simp only [record?, found, find, readable, table?_withTable, ht, bind, Except.bind, hrows c hc]
    · exact record?_of_table? (table?_withTable_of_ne hj s t')

theorem record?_insert {e : Entry k} (h : s.insert e = .ok s') {q : Query}
    (hq : ¬ (Change.mk k e.code false).Touches q) : s'.record? q = s.record? q := by
  obtain ⟨t, t', ht, hinsert, rfl⟩ := insert_ok h
  exact record?_withTable (table?_of_writable ht)
    (fun c hc => Table.find?_insert?_of_ne hinsert hc) hq

theorem record?_update {e : Entry k} {found : Bool} (h : s.update e = .ok (found, s')) {q : Query}
    (hq : ¬ (Change.mk k e.code false).Touches q) : s'.record? q = s.record? q := by
  obtain ⟨t, ht, -, rfl⟩ := update_ok h
  split
  · exact record?_withTable (table?_of_writable ht) (fun c hc => Table.find?_replace_of_ne hc) hq
  · rfl

theorem record?_delete {c : Code k} {found : Bool} (h : s.delete c = .ok (found, s')) {q : Query}
    (hq : ¬ (Change.mk k c true).Touches q) : s'.record? q = s.record? q := by
  obtain ⟨t, ht, -, rfl⟩ := delete_ok h
  split
  · have hother : k = .uom → q.kind ≠ .parameter := fun hk hj => by
      cases q <;> exact hq (Or.inr ⟨rfl, hk, hj⟩)
    rw [record?_of_table? (table?_afterDelete c hother _)]
    exact record?_withTable (table?_of_writable ht) (fun d hd => Table.find?_erase_of_ne hd) hq
  · rfl

/-! ## Operations as changes -/

/-- An operation either fails and leaves the store as it is, or makes a change. -/
def Changes (s : Store) (ch : Change) (result : Except Fault Unit × Store) : Prop :=
  (∃ f, result = (.error f, s)) ∨
    ∃ s', result = (.ok (), s') ∧ ∀ q, ¬ ch.Touches q → s'.record? q = s.record? q

theorem created_changes (s : Store) (e : Entry k) : s.Changes ⟨k, e.code, false⟩ (s.created e) := by
  unfold created
  cases h : s.insert e with
  | error f => exact Or.inl ⟨_, rfl⟩
  | ok s' => exact Or.inr ⟨s', rfl, fun q hq => record?_insert h hq⟩

theorem updated_changes (s : Store) (e : Entry k) : s.Changes ⟨k, e.code, false⟩ (s.updated e) := by
  unfold updated
  cases h : s.update e with
  | error f => exact Or.inl ⟨_, rfl⟩
  | ok found =>
    obtain ⟨found, s'⟩ := found
    cases found with
    | true => exact Or.inr ⟨s', rfl, fun q hq => record?_update h hq⟩
    | false =>
      obtain ⟨t, -, -, rfl⟩ := update_ok h
      exact Or.inl ⟨_, rfl⟩

theorem deleted_changes (s : Store) (c : Code k) : s.Changes ⟨k, c, true⟩ (s.deleted c) := by
  unfold deleted
  cases h : s.delete c with
  | error f => exact Or.inl ⟨_, rfl⟩
  | ok found =>
    obtain ⟨found, s'⟩ := found
    cases found with
    | true => exact Or.inr ⟨s', rfl, fun q hq => record?_delete h hq⟩
    | false =>
      obtain ⟨t, -, -, rfl⟩ := delete_ok h
      exact Or.inl ⟨_, rfl⟩

end Store

end CostCatalog
