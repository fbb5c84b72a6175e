import CostCatalog.Proofs.Cache.Stems

/-!
# Which query a key belongs to

A key tells the kind of its query, whether an entry or a page is asked for, and of which code or of
which selection: two queries share a key only if their answers are the same, `keys_unambiguous`. Of a
page it does not tell the number and the size that were asked for, but the place that they mean. Not
every page has a key: a number with too many digits is not written out, and there is no key then.
-/

namespace CostCatalog

variable {k : Kind}

/-! ## Places of pages -/

/-- Of pages of one size, the rows before a page tell its number. -/
theorem Page.offset_eq_iff {p q : Page} (h : p.limit = q.limit) :
    p.offset = q.offset ↔ p.effective = q.effective := by
  have hp := p.effective_pos
  have hq := q.effective_pos
  rw [offset, offset, h, Nat.mul_left_inj q.limit_pos.ne']
  omega

/-! ## Keys -/

namespace Filter

theorem hasListKey_iff (f : Filter k) :
    f.hasListKey = true ↔ f.page.number < 10 ^ Decimal.maxDigits := by
  have hone : (1 : Int) < 10 ^ Decimal.maxDigits := one_lt_pow₀ (by decide) (by decide)
  have hcast : f.page.effective < 10 ^ Decimal.maxDigits ↔
      (f.page.effective : Int) < 10 ^ Decimal.maxDigits := by
    exact_mod_cast Iff.rfl
  rw [hasListKey, Decimal.isShort_iff, Int.natAbs_natCast, hcast, Page.effective]
  split
  · rw [Int.toNat_of_nonneg (by omega)]
  · exact iff_of_true hone (by omega)

theorem listKey?_eq_ok_iff {f : Filter k} {key : String} :
    f.listKey? = .ok key ↔ f.hasListKey = true ∧ f.listKey = key := by
  rw [listKey?]
  split <;> simp_all

private theorem eq_of_listKey?_eq_error {f : Filter k} {e : Fault} (h : f.listKey? = .error e) :
    e = .unexpected .tooManyDigits := by
  rw [listKey?] at h
  split at h <;> cases h
  rfl

/-- Two keys of pages of one kind are one key exactly if they are of one place in one selection. -/
theorem listKey_eq_iff (f g : Filter k) :
    f.listKey = g.listKey ↔ f.category = g.category ∧ f.activity = g.activity ∧
      f.page.offset = g.page.offset ∧ f.page.limit = g.page.limit := by
  constructor
  · intro h
    obtain ⟨hcategory, hactivity, heffective, hlimit⟩ := listKey_inj h
    exact ⟨hcategory, hactivity, (Page.offset_eq_iff hlimit).mpr heffective, hlimit⟩
  · rintro ⟨hcategory, hactivity, hoffset, hlimit⟩
    have heffective := (Page.offset_eq_iff hlimit).mp hoffset
    rw [listKey, listKey, hcategory, hactivity, heffective, hlimit]

/-- The repository over the store answers filters of one place in one selection alike. -/
theorem list_congr {f g : Filter k} (hcategory : f.category = g.category)
    (hactivity : f.activity = g.activity) (hoffset : f.page.offset = g.page.offset)
    (hlimit : f.page.limit = g.page.limit) (w : World) :
    (((Repository.stored k).list f).perform w).1 = (((Repository.stored k).list g).perform w).1 := by
  have heffective := (Page.offset_eq_iff hlimit).mp hoffset
  obtain ⟨_, hf⟩ := Repository.performs_storedList w f
  obtain ⟨_, hg⟩ := Repository.performs_storedList w g
  have hsame := w.store.listed_congr hcategory hactivity heffective hlimit
  exact (congrArg Prod.fst hf).trans (hsame.trans (congrArg Prod.fst hg).symm)

end Filter

namespace Query

private theorem entryKey_eq_iff {j k : Kind} (c : Code j) (d : Code k) :
    Filter.entryKey c = Filter.entryKey d ↔ j = k ∧ c.text = d.text := by
  constructor
  · intro h
    obtain rfl : j = k := kind_eq_of_key_eq (p := .entry j c) (q := .entry k d) h
    exact ⟨rfl, congrArg Code.text (Filter.entryKey_inj h)⟩
  · rintro ⟨rfl, htext⟩
    rw [Code.ext_text htext]

private theorem entryKey_ne_listKey_of_kinds {j k : Kind} (c : Code j) (f : Filter k) :
    Filter.entryKey c ≠ f.listKey := by
  intro h
  obtain rfl : j = k := kind_eq_of_key_eq (p := .entry j c) (q := .list k f) h
  exact Filter.entryKey_ne_listKey c f h

/-- The queries whose answers a change drops from the lists of a kind are those lists. -/
theorem lists_means_iff (q : Query) :
    (Cache.Invalidation.lists k).Means q ↔ ∃ f : Filter k, q = .list k f := by
  cases q with
  | entry j c => exact iff_of_false id fun ⟨_, h⟩ => nomatch h
  | list j f =>
    constructor
    · rintro rfl
      exact ⟨f, rfl⟩
    · rintro ⟨_, h⟩
      cases h
      rfl

theorem key_of_key? {q : Query} {key : String} (h : q.key? = .ok key) : q.key = key := by
  cases q with
  | entry k c => exact Except.ok.inj h
  | list k f => exact (Filter.listKey?_eq_ok_iff.mp h).2

/-- Keys of entries tell kind and code. A page has a key exactly if its number has few enough digits;
asking for another page fails before any key is made. Keys of pages of one kind tell category, choice
of states, how many rows come before the page and how many fill it, and nothing else, and with all
that the same a store answers two filters alike. No key of an entry is that of a page, and no key
belongs to both kinds. Behind a stem of plain characters, each of the three patterns matches the keys
that it is for and no others. -/
theorem keys_unambiguous :
    (∀ (j k : Kind) (c : Code j) (d : Code k),
      Filter.entryKey c = Filter.entryKey d ↔ j = k ∧ c.text = d.text) ∧
    (∀ (k : Kind) (f : Filter k),
      ((∃ key, f.listKey? = .ok key) ↔ f.page.number < 10 ^ Decimal.maxDigits) ∧
      ∀ e, f.listKey? = .error e → e = .unexpected .tooManyDigits) ∧
    (∀ (k : Kind) (f g : Filter k),
      (∀ key key', f.listKey? = .ok key → g.listKey? = .ok key' →
        (key = key' ↔ f.category = g.category ∧ f.activity = g.activity ∧
          f.page.offset = g.page.offset ∧ f.page.limit = g.page.limit)) ∧
      (f.category = g.category → f.activity = g.activity → f.page.offset = g.page.offset →
        f.page.limit = g.page.limit → ∀ w : World,
          (((Repository.stored k).list f).perform w).1 =
            (((Repository.stored k).list g).perform w).1)) ∧
    (∀ (j k : Kind) (c : Code j) (f : Filter k) (key : String),
      f.listKey? = .ok key → Filter.entryKey c ≠ key) ∧
    (∀ (p q : Query) (key key' : String), p.key? = .ok key → q.key? = .ok key' →
      p.kind ≠ q.kind → key ≠ key') ∧
    ∀ stem : String, (∀ c ∈ stem.toList, c ≠ '*' ∧ c ≠ '?' ∧ c ≠ '[') →
      ∀ (q : Query) (key : String), q.key? = .ok key →
        (Glob.isMatch (stem ++ "uom:list:*") (stem ++ key) = true ↔
          ∃ f : Filter .uom, q = .list .uom f) ∧
        (Glob.isMatch (stem ++ "param:list:*") (stem ++ key) = true ↔
          ∃ f : Filter .parameter, q = .list .parameter f) ∧
        (Glob.isMatch (stem ++ "param:*") (stem ++ key) = true ↔ q.kind = .parameter) := by
  refine ⟨fun j k c d => entryKey_eq_iff c d, fun k f => ⟨?_, fun e => Filter.eq_of_listKey?_eq_error⟩,
    fun k f g => ⟨fun key key' hf hg => ?_, fun hcategory hactivity hoffset hlimit w =>
      Filter.list_congr hcategory hactivity hoffset hlimit w⟩,
    fun j k c f key hf => ?_, fun p q key key' hp hq hkind h => hkind ?_,
    fun stem hstem q key hq => ?_⟩
  · rw [← Filter.hasListKey_iff]
    exact ⟨fun ⟨_, h⟩ => (Filter.listKey?_eq_ok_iff.mp h).1,
      fun h => ⟨f.listKey, Filter.listKey?_eq_ok_iff.mpr ⟨h, rfl⟩⟩⟩
  · obtain ⟨-, rfl⟩ := Filter.listKey?_eq_ok_iff.mp hf
    obtain ⟨-, rfl⟩ := Filter.listKey?_eq_ok_iff.mp hg
    exact Filter.listKey_eq_iff f g
  · obtain ⟨-, rfl⟩ := Filter.listKey?_eq_ok_iff.mp hf
    exact entryKey_ne_listKey_of_kinds c f
  · obtain rfl := key_of_key? hp
    obtain rfl := key_of_key? hq
    exact kind_eq_of_key_eq h
  · obtain rfl := key_of_key? hq
    have hmatches (i : Cache.Invalidation) := i.matches_meant_of_plain hstem q
    exact ⟨(hmatches (.lists .uom)).trans q.lists_means_iff,
      (hmatches (.lists .parameter)).trans q.lists_means_iff, hmatches .parameters⟩

/-- A page before the first, of too many rows. -/
def farBack : Filter .parameter := ⟨⟨-3, 101⟩, some .machine, some true⟩

/-- The first page, of as many rows as there may be. -/
def firstPage : Filter .parameter := ⟨⟨1, 100⟩, some .machine, some true⟩

/-- A page before the first shares its key, but not with that of the other states. -/
theorem keys_unambiguous_farBack :
    (∃ key key' other, farBack.listKey? = .ok key ∧ firstPage.listKey? = .ok key' ∧
      Filter.listKey? { firstPage with activity := some false } = .ok other ∧
      key = key' ∧ key ≠ other) ∧
    (∀ c ∈ "app:".toList, c ≠ '*' ∧ c ≠ '?' ∧ c ≠ '[') ∧
    ∃ key, (list .parameter farBack).key? = .ok key ∧
      Glob.isMatch ("app:" ++ "param:*") ("app:" ++ key) = true ∧
      ¬ Glob.isMatch ("app:" ++ "uom:list:*") ("app:" ++ key) = true := by
  obtain ⟨-, hmade, hlists, -, -, hpatterns⟩ := keys_unambiguous
  have hnear {n : Int} (h : n ≤ 1) : n < 10 ^ Decimal.maxDigits :=
    h.trans_lt (one_lt_pow₀ (by decide) (by decide))
  obtain ⟨key, hkey⟩ := (hmade .parameter farBack).1.mpr (hnear (by decide))
  obtain ⟨key', hkey'⟩ := (hmade .parameter firstPage).1.mpr (hnear (by decide))
  obtain ⟨other, hother⟩ :=
    (hmade .parameter { firstPage with activity := some false }).1.mpr (hnear (by decide))
  have hstem : ∀ c ∈ "app:".toList, c ≠ '*' ∧ c ≠ '?' ∧ c ≠ '[' := by simp
  obtain ⟨hunits, -, hall⟩ := hpatterns "app:" hstem (list .parameter farBack) key hkey
  refine ⟨⟨key, key', other, hkey, hkey', hother, ?_, fun h => ?_⟩, hstem, key, hkey, hall.mpr rfl,
    fun h => nomatch hunits.mp h⟩
  · exact ((hlists .parameter farBack firstPage).1 key key' hkey hkey').mpr (by decide)
  · have hstates := (((hlists .parameter farBack _).1 key other hkey hother).mp h).2.1
    cases hstates

/-- The first of the pages whose numbers have too many digits. -/
def remotePage : Filter .uom := ⟨⟨10 ^ Decimal.maxDigits, 10⟩, none, ()⟩

/-- A page whose number has too many digits has no key, so not all that is one page is one key. -/
theorem no_key_of_remotePage :
    remotePage.listKey? = .error (.unexpected .tooManyDigits) ∧
      ¬ ∀ f g : Filter .uom, (∃ key, f.listKey? = .ok key ∧ g.listKey? = .ok key) ↔
        f.category = g.category ∧ f.activity = g.activity ∧
          f.page.offset = g.page.offset ∧ f.page.limit = g.page.limit := by
  have hnone : ¬ remotePage.hasListKey = true :=
    mt remotePage.hasListKey_iff.mp (Int.lt_irrefl _)
  refine ⟨if_neg hnone, fun h => ?_⟩
  obtain ⟨key, hkey, -⟩ := (h remotePage remotePage).mpr ⟨rfl, rfl, rfl, rfl⟩
  exact hnone (Filter.listKey?_eq_ok_iff.mp hkey).1

end Query

end CostCatalog
