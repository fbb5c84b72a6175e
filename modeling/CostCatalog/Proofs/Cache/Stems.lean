import CostCatalog.Proofs.Cache.Memory
import CostCatalog.Proofs.Cache.Patterns
import CostCatalog.Proofs.Cache.Queries

/-!
# Stems and what is dropped behind them

A pattern is meant to drop the entries whose keys match it behind the stem. But the stem is put in
front of the pattern as well, and is part of the pattern there. So all patterns do what they are meant
to do exactly under the stems without a star and an opening bracket. For the three patterns by which
answers are dropped when something changes it is enough that the stem matches itself, and that the
stem with the pattern behind it does not match the stem alone, `drops_meant_iff`.
-/

namespace CostCatalog.Cache

variable {c : Cache} {stem : String} {slot : Slot} {τ : Type}

/-! ## The keys of a cache -/

/-- A call keeps a value under a key. -/
def Use.Keeps (name : String) : Use τ → Prop
  | .set key _ _ _ _ => key = name
  | _ => False

section

variable [Textual τ] [DecidableEq τ]

/-- After a call, an entry was there before or is kept by the call, behind the stem. -/
private theorem Use.mem_slots_on {u : Use τ} (h : slot ∈ (u.on c).slots) :
    slot ∈ c.slots ∨ ∃ key, u.Keeps key ∧ slot.key = c.stem ++ key := by
  cases u with
  | set key v ttl swept now =>
    rcases c.set_json key v ttl now swept with ⟨ends, -, hset⟩ | ⟨-, f, hset | ⟨hset, -⟩⟩ <;>
      rw [Use.on, hset] at h
    · rcases mem_put h with rfl | ⟨hold, -⟩
      · exact Or.inr ⟨key, rfl, rfl⟩
      · exact Or.inl (mem_of_mem_sweep hold)
    · exact Or.inl h
    · exact Or.inl (mem_of_mem_sweep h)
  | get key now => exact Or.inl (getAs_subset τ h)
  | delete keys =>
    rw [Use.on, delete_eq_keep] at h
    exact Or.inl (List.mem_filter.mp h).1
  | deleteMatching pattern => exact Or.inl (mem_deleteMatching.mp h).1

theorem stem_after (stem : String) (depth : Json.Depth) (us : List (Use τ)) :
    (after { stem, depth } us).stem = stem :=
  ((mirrors_empty depth stem).after us).stem_eq

/-- After some calls of an empty cache, every entry is kept by one of them, behind the stem. -/
private theorem mem_slots_after {depth : Json.Depth} {us : List (Use τ)}
    (h : slot ∈ (after { stem, depth } us).slots) :
    ∃ u ∈ us, ∃ key, u.Keeps key ∧ slot.key = stem ++ key := by
  induction us using List.reverseRecOn with
  | nil => cases h
  | append_singleton us u ih =>
    rw [after, List.foldl_append] at h
    rcases u.mem_slots_on h with hold | ⟨key, hkeeps, hkey⟩
    · obtain ⟨w, hw, hkey⟩ := ih hold
      exact ⟨w, List.mem_append_left _ hw, hkey⟩
    · refine ⟨u, List.mem_append_right _ (List.mem_singleton_self u), key, hkeeps, ?_⟩
      rw [hkey, show (us.foldl Use.on { stem, depth }).stem = stem from stem_after stem depth us]

end

/-! ## What is dropped -/

/-- A pattern drops the entries whose keys behind the stem are meant, and no others. -/
def DropsExactly (c : Cache) (pattern : String) (meant : String → Prop) : Prop :=
  ∀ slot, slot ∈ (c.deleteMatching pattern).2.slots ↔
    slot ∈ c.slots ∧ ¬ ∃ key, slot.key = c.stem ++ key ∧ meant key

private theorem exists_behind_iff {key : String} {meant : String → Prop} :
    (∃ name, stem ++ key = stem ++ name ∧ meant name) ↔ meant key :=
  ⟨fun ⟨_, hname, hmeant⟩ => Filter.append_left_cancel hname ▸ hmeant,
    fun hmeant => ⟨key, rfl, hmeant⟩⟩

/-- A pattern drops what is meant in every run of a cache that keeps values under certain keys only,
exactly if of those keys it matches the ones that are meant, with the stem in front of both. -/
theorem dropsExactly_iff (τ : Type) [Textual τ] [DecidableEq τ] (stem : String) (depth : Json.Depth)
    (pattern : String) (kept meant : String → Prop) :
    (∀ us : List (Use τ), (∀ u ∈ us, ∀ key, u.Keeps key → kept key) →
        (after { stem, depth } us).DropsExactly pattern meant) ↔
      ∀ key, kept key → (Glob.isMatch (stem ++ pattern) (stem ++ key) = true ↔ meant key) := by
  constructor
  · intro h key hkey
    -- one value kept under the key shows what the pattern does to it
    let one : List (Use τ) := [.set key .null (.real 0) 0 0]
    have hslot : ∃ slot ∈ (after { stem, depth } one).slots, slot.key = stem ++ key :=
      ⟨_, List.mem_singleton_self _, rfl⟩
    obtain ⟨slot, hslot, hslotKey⟩ := hslot
    have hiff := h one (fun u hu name hname => by
      obtain rfl := List.mem_singleton.mp hu
      exact hname ▸ hkey) slot
    rw [mem_deleteMatching, hslotKey, stem_after, and_congr_right_iff, exists_behind_iff] at hiff
    rw [← not_iff_not, Bool.not_eq_true]
    exact hiff hslot
  · intro h us hus slot
    rw [mem_deleteMatching, stem_after]
    refine and_congr_right fun hslot => ?_
    obtain ⟨u, hu, key, hkeeps, hkey⟩ := mem_slots_after hslot
    rw [hkey, exists_behind_iff, ← Bool.not_eq_true, not_iff_not]
    exact h key (hus u hu key hkeeps)

/-! ## What is dropped when something changes -/

/-- What is dropped when an entry changes: the lists of its kind, or all that is kept of parameters. -/
inductive Invalidation where
  | lists (k : Kind)
  | parameters

namespace Invalidation

/-- The pattern. -/
def pattern : Invalidation → String
  | lists k => Filter.listPattern k
  | parameters => Filter.allPattern .parameter

/-- The queries whose answers are to be dropped. -/
def Means : Invalidation → Query → Prop
  | lists k, .list j _ => j = k
  | lists _, .entry _ _ => False
  | parameters, q => q.kind = .parameter

/-- What the keys of those queries start with. -/
def front : Invalidation → String
  | lists k => Filter.keySpace k ++ "list:"
  | parameters => Filter.keySpace .parameter

private theorem pattern_eq (i : Invalidation) : i.pattern = i.front ++ "*" := by
  rcases i with (_ | _) | _ <;> rfl

theorem means_iff (i : Invalidation) (q : Query) : i.Means q ↔ i.front.toList <+: q.key.toList := by
  cases i with
  | lists k =>
    have hspace (h : (lists k).front.toList <+: q.key.toList) : q.kind = k := by
      refine Filter.kind_eq_of_prefix q.keySpace_prefix_key (List.IsPrefix.trans ?_ h)
      rw [front, String.toList_append]
      exact List.prefix_append _ _
    cases q with
    | entry j c =>
      refine iff_of_false id fun h => ?_
      obtain rfl : j = k := hspace h
      exact Filter.not_list_prefix_entryKey c h
    | list j f => exact ⟨fun h => h ▸ f.list_prefix_listKey, hspace⟩
  | parameters =>
    constructor
    · intro h
      have hprefix := q.keySpace_prefix_key
      rwa [show q.kind = .parameter from h] at hprefix
    · exact fun h => Filter.kind_eq_of_prefix q.keySpace_prefix_key h

/-- Whether an answer is to be dropped is told by its key. -/
theorem exists_means_iff (i : Invalidation) (q : Query) :
    (∃ q', i.Means q' ∧ q.key = q'.key) ↔ i.Means q := by
  refine ⟨fun ⟨q', hmeans, hkey⟩ => ?_, fun h => ⟨q, h, rfl⟩⟩
  rw [means_iff] at hmeans ⊢
  rwa [hkey]

/-! ### Where the front of a key can stand -/

/-- A character that no key has behind the space of its kind. -/
private def IsAside (c : Char) : Prop := c = 'o' ∨ c = 'p'

private instance : DecidablePred IsAside := fun _ => inferInstanceAs (Decidable (_ ∨ _))

private theorem not_isAside_of_all {cs : List Char}
    (h : (cs.all fun c => decide (¬ IsAside c)) = true) : ∀ c ∈ cs, ¬ IsAside c :=
  fun c hc => of_decide_eq_true (List.all_eq_true.mp h c hc)

private theorem not_isAside_of_digits (n : Nat) : ∀ c ∈ (toString n).toList, ¬ IsAside c := by
  intro c hc hc'
  rw [Nat.toString_eq_ofList_toDigits, String.toList_ofList] at hc
  have hdigit := Decimal.isDigit_of_mem_toDigits hc
  rcases hc' with rfl | rfl <;> cases hdigit

private theorem not_isAside_of_code {k : Kind} (c : Code k) :
    ∀ d ∈ c.text.toList, ¬ IsAside d := by
  have hall : ∀ d ∈ c.text.toList, Code.isTail d = true := by
    have hwell := c.wellFormed
    revert hwell
    cases c.text.toList with
    | nil => exact fun _ d hd => nomatch hd
    | cons b cs =>
      intro hwell
      simp only [Code.isWellFormed, Bool.and_eq_true, List.all_eq_true] at hwell
      refine List.forall_mem_cons.mpr ⟨?_, hwell.1.2⟩
      simp [Code.isTail, hwell.1.1]
  intro d hd hd'
  have htail := hall d hd
  rcases hd' with rfl | rfl <;> cases htail

/-- Behind the space of its kind, a key has neither an `o` nor a `p`. -/
private theorem exists_behind_keySpace (q : Query) : ∃ behind,
    q.key.toList = (Filter.keySpace q.kind).toList ++ behind ∧ ∀ c ∈ behind, ¬ IsAside c := by
  cases q with
  | entry k c => exact ⟨c.text.toList, String.toList_append .., not_isAside_of_code c⟩
  | list k f =>
    refine ⟨"list:".toList ++ ((Filter.categoryKey f.category).toList ++ ':' ::
      ((Filter.activityKey f.activity).toList ++ ((toString f.page.effective).toList ++ ':' ::
        (toString f.page.limit).toList))), ?_, ?_⟩
    · rw [← List.append_assoc, ← String.toList_append]
      exact Filter.toList_listKey f
    · have hcategory : ∀ c ∈ (Filter.categoryKey f.category).toList, ¬ IsAside c := by
        apply not_isAside_of_all
        cases k <;> rcases f.category with _ | c <;> try cases c
        all_goals rfl
      have hactivity : ∀ c ∈ (Filter.activityKey f.activity).toList, ¬ IsAside c := by
        apply not_isAside_of_all
        cases k with
        | uom => rfl
        | parameter => rcases f.activity with _ | _ | _ <;> rfl
      simp only [List.forall_mem_append, List.forall_mem_cons]
      exact ⟨not_isAside_of_all rfl, hcategory, by decide, hactivity, not_isAside_of_digits _,
        by decide, not_isAside_of_digits _⟩

/-- A text with a mark stands only at the front of one in which the mark is not found further on. -/
private theorem eq_nil_of_mark (first : List Char) {before behind cs : List Char} {mark : Char}
    (h : before ++ (first ++ mark :: behind) <+: cs) (hmark : mark ∉ cs.drop (first.length + 1)) :
    before = [] := by
  obtain ⟨rest, rfl⟩ := h
  cases before with
  | nil => rfl
  | cons c before =>
    refine absurd ?_ hmark
    rw [← List.append_assoc, List.append_assoc,
      List.drop_append_of_le_length (by rw [List.length_append, List.length_cons]; omega)]
    exact List.mem_append_right _ (List.mem_cons_self ..)

/-- The front of a key stands nowhere but at the front of a key. -/
private theorem eq_nil_of_front (i : Invalidation) (q : Query) {before : List Char}
    (h : before ++ i.front.toList <+: q.key.toList) : before = [] := by
  obtain ⟨behind, hkey, hbehind⟩ := exists_behind_keySpace q
  have ho : 'o' ∉ behind := fun hmem => hbehind _ hmem (Or.inl rfl)
  have hp : 'p' ∉ behind := fun hmem => hbehind _ hmem (Or.inr rfl)
  have hdrop : 'o' ∉ q.key.toList.drop 2 ∧ 'p' ∉ q.key.toList.drop 1 := by
    rw [hkey]
    cases q.kind <;> simp [Filter.keySpace, ho, hp]
  rcases i with (_ | _) | _
  · exact eq_nil_of_mark ['u'] h hdrop.1
  · exact eq_nil_of_mark [] h hdrop.2
  · exact eq_nil_of_mark [] h hdrop.2

/-- No key starts in the middle of a front. -/
private theorem not_prefix_of_front (i : Invalidation) (q : Query) {before behind : List Char}
    (h : i.front.toList = before ++ behind) (hbefore : before ≠ []) (hbehind : behind ≠ []) :
    ¬ behind <+: q.key.toList := by
  obtain ⟨b, before, rfl⟩ := List.exists_cons_of_ne_nil hbefore
  obtain ⟨c, behind, rfl⟩ := List.exists_cons_of_ne_nil hbehind
  rintro ⟨rest, hkey⟩
  have hstart : (i.front.toList.tail.all fun d => d != 'u' && d != 'p') = true := by
    rcases i with (_ | _) | _ <;> rfl
  have hc := List.all_eq_true.mp hstart c (by rw [h]; simp)
  rw [Bool.and_eq_true, bne_iff_ne, bne_iff_ne] at hc
  obtain ⟨more, hspace⟩ := q.keySpace_prefix_key
  have hhead := congrArg List.head? (hspace.trans hkey.symm)
  cases hkind : q.kind <;> simp [hkind, Filter.keySpace] at hhead
  · exact hc.1 hhead.symm
  · exact hc.2 hhead.symm

/-- Where a text ends that stands in front of another in two: in the first, or behind it; or it starts
in the first and ends in the second. -/
private theorem cases_of_prefix_append {x front s t : List Char} (h : x ++ front <+: s ++ t) :
    x ++ front <+: s ∨ (∃ u, x = s ++ u ∧ u ++ front <+: t) ∨
      ∃ u v, front = u ++ v ∧ u ≠ [] ∧ v ≠ [] ∧ v <+: t := by
  rcases List.prefix_or_prefix_of_prefix h (List.prefix_append s t) with hin | hout
  · exact Or.inl hin
  rcases List.prefix_or_prefix_of_prefix hout (List.prefix_append x front) with ⟨u, rfl⟩ | ⟨u, rfl⟩
  · rw [List.append_assoc, List.prefix_append_right_inj] at h
    exact Or.inr (Or.inl ⟨u, rfl, h⟩)
  · rw [List.prefix_append_right_inj] at hout
    obtain ⟨v, rfl⟩ := hout
    rw [List.append_assoc, List.prefix_append_right_inj, List.prefix_append_right_inj] at h
    by_cases hu : u = []
    · subst hu
      exact Or.inr (Or.inl ⟨[], by simp, h⟩)
    · by_cases hv : v = []
      · subst hv
        exact Or.inl (by simp)
      · exact Or.inr (Or.inr ⟨u, v, rfl, hu, hv, h⟩)

/-- What an invalidation matches behind a stem: all keys, if the stem with the pattern behind it
matches the stem alone; or the keys that are meant, if the stem matches itself. -/
theorem isMatch_pattern_iff (i : Invalidation) (q : Query) (stem : String) :
    Glob.isMatch (stem ++ i.pattern) (stem ++ q.key) = true ↔
      Glob.isMatch (stem ++ i.pattern) stem = true ∨
        Glob.isMatch stem stem = true ∧ i.Means q := by
  have hplain : ∀ c ∈ i.front.toList, Glob.IsPlain c :=
    Glob.isPlain_of_all (by rcases i with (_ | _) | _ <;> rfl)
  have hopen : ']' ∉ i.front.toList := by rcases i with (_ | _) | _ <;> decide
  have hmatch := Glob.isMatch_append_star_iff stem hplain hopen
  rw [pattern_eq, hmatch, hmatch, means_iff, String.toList_append]
  constructor
  · rintro ⟨x, hx, hprefix⟩
    rcases cases_of_prefix_append hprefix with hstem | ⟨u, rfl, hkey⟩ | ⟨u, v, hfront, hu, hv, hkey⟩
    · exact Or.inl ⟨x, hx, hstem⟩
    · obtain rfl := i.eq_nil_of_front q hkey
      rw [List.append_nil, String.ofList_toList] at hx
      exact Or.inr ⟨hx, hkey⟩
    · exact absurd hkey (i.not_prefix_of_front q hfront hu hv)
  · rintro (⟨x, hx, hprefix⟩ | ⟨hstem, hmeans⟩)
    · exact ⟨x, hx, hprefix.trans (List.prefix_append _ _)⟩
    · refine ⟨stem.toList, by rwa [String.ofList_toList], ?_⟩
      rwa [List.prefix_append_right_inj]

/-- Each invalidation means the answers to some queries and not those to others. -/
private theorem exists_means (i : Invalidation) : (∃ q, i.Means q) ∧ ∃ q, ¬ i.Means q := by
  cases i with
  | lists k =>
    exact ⟨⟨.list k { activity := Filter.anyActivity k }, rfl⟩,
      ⟨.entry k ⟨"A", by cases k <;> decide⟩, id⟩⟩
  | parameters =>
    exact ⟨⟨.list .parameter { activity := none }, rfl⟩,
      ⟨.list .uom { activity := () }, Kind.noConfusion⟩⟩

/-- Behind a stem, an invalidation matches the keys that it means and no others exactly if the stem
matches itself, and the stem with the pattern behind it does not match the stem alone. -/
theorem matches_meant_iff (i : Invalidation) (stem : String) :
    (∀ q : Query, Glob.isMatch (stem ++ i.pattern) (stem ++ q.key) = true ↔ i.Means q) ↔
      Glob.isMatch stem stem = true ∧ Glob.isMatch (stem ++ i.pattern) stem = false := by
  obtain ⟨⟨meant, hmeant⟩, ⟨other, hother⟩⟩ := i.exists_means
  simp only [isMatch_pattern_iff, ← Bool.not_eq_true]
  constructor
  · intro h
    have hnot : ¬ Glob.isMatch (stem ++ i.pattern) stem = true := fun hall =>
      hother ((h other).mp (Or.inl hall))
    exact ⟨(((h meant).mpr hmeant).resolve_left hnot).1, hnot⟩
  · rintro ⟨hself, hnot⟩ q
    exact ⟨fun h => (h.resolve_left hnot).2, fun h => Or.inr ⟨hself, h⟩⟩

/-- So it is behind a stem of plain characters. -/
theorem matches_meant_of_plain {stem : String} (h : ∀ c ∈ stem.toList, Glob.IsPlain c)
    (i : Invalidation) (q : Query) :
    Glob.isMatch (stem ++ i.pattern) (stem ++ q.key) = true ↔ i.Means q := by
  rw [i.means_iff]
  cases i with
  | lists k => exact Filter.matches_listPattern h k q.key
  | parameters => exact Filter.matches_allPattern h .parameter q.key

end Invalidation

/-- Behind a stem, every pattern drops the entries whose keys it matches and no others exactly if the
stem has no star and no opening bracket. And what is dropped when something changes, from a cache that
keeps the answers to queries, is what is meant exactly if the stem matches itself, and the stem with
the pattern behind it does not match the stem alone. -/
theorem drops_meant_iff (τ : Type) [Textual τ] [DecidableEq τ] (stem : String) (depth : Json.Depth) :
    ((∀ (us : List (Use τ)) (pattern : String),
        (after { stem, depth } us).DropsExactly pattern fun key =>
          Glob.isMatch pattern key = true) ↔ ∀ c ∈ stem.toList, c ≠ '*' ∧ c ≠ '[') ∧
      ∀ i : Invalidation,
        (∀ us : List (Use τ), (∀ u ∈ us, ∀ key, u.Keeps key → ∃ q : Query, key = q.key) →
          (after { stem, depth } us).DropsExactly i.pattern fun key => ∃ q, i.Means q ∧ key = q.key) ↔
          Glob.isMatch stem stem = true ∧ Glob.isMatch (stem ++ i.pattern) stem = false := by
  constructor
  · rw [← Glob.isMatch_append_iff, forall_comm]
    refine forall_congr' fun pattern => ?_
    have hruns := dropsExactly_iff τ stem depth pattern (fun _ => True) fun key =>
      Glob.isMatch pattern key = true
    simpa only [implies_true, forall_const, Bool.coe_iff_coe] using hruns
  · intro i
    rw [dropsExactly_iff, ← i.matches_meant_iff]
    refine ⟨fun h q => (h q.key ⟨q, rfl⟩).trans (i.exists_means_iff q), ?_⟩
    rintro h key ⟨q, rfl⟩
    exact (h q).trans (i.exists_means_iff q).symm

/-- Behind a stem with a set in it, which does not match itself, a list stays whose key matches the
pattern. -/
theorem list_survives :
    Glob.isMatch "uom:list:*" "uom:list:all:1:10" = true ∧
      ((after (τ := String) { stem := "a[b]:" }
        [.set "uom:list:all:1:10" .null (.whole 60) 0 0]).deleteMatching
        "uom:list:*").2.keys = ["a[b]:uom:list:all:1:10"] := by
  decide +kernel

end CostCatalog.Cache
