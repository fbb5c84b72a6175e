import CostCatalog.Proofs.Keyed
import CostCatalog.Wire.Name
import Mathlib.Data.List.Induction
import Mathlib.Data.List.Nodup

/-!
# Accepted tables read both ways

What a table of entries tells of a member is what the last entry for it says, `Tells`. The table is
accepted exactly if it tells something of every member, never the same text of two, and the empty
text of one. An accepted table turns members into texts and texts into members, and the two are
inverse to each other, `ofTable_reads_both_ways`.
-/

namespace CostCatalog.Wire.Mapping

/-! ## What a table tells -/

section Telling

variable {K V : Type} [DecidableEq K] {k x : K} {v y : V}

/-- The last of some entries for a key gives it a value. -/
def Tells (entries : List (K × V)) (k : K) (v : V) : Prop :=
  ∃ before later, entries = before ++ (k, v) :: later ∧ k ∉ later.map (·.1)

/-- After one more entry, its key has its value and every other key the value that it had. -/
private theorem tells_concat_iff {entries : List (K × V)} :
    Tells (entries ++ [(k, v)]) x y ↔ if x = k then y = v else Tells entries x y := by
  constructor
  · rintro ⟨before, later, hsplit, hlast⟩
    rcases List.eq_nil_or_concat later with rfl | ⟨later, e, rfl⟩
    · obtain ⟨-, hentry⟩ := List.append_inj' hsplit rfl
      cases hentry
      rw [if_pos rfl]
    · rw [List.concat_eq_append, ← List.cons_append, ← List.append_assoc] at hsplit
      obtain ⟨hfront, hentry⟩ := List.append_inj' hsplit rfl
      cases hentry
      rw [List.concat_eq_append, List.map_append, List.mem_append, not_or] at hlast
      rw [if_neg (List.ne_of_not_mem_cons hlast.2)]
      exact ⟨before, later, hfront, hlast.1⟩
  · intro h
    split at h
    · next hx =>
      subst hx h
      exact ⟨entries, [], rfl, List.not_mem_nil⟩
    · next hx =>
      obtain ⟨before, later, rfl, hlast⟩ := h
      refine ⟨before, later ++ [(k, v)], List.append_assoc .., ?_⟩
      rw [List.map_append, List.mem_append, not_or]
      exact ⟨hlast, fun hmem => hx (List.mem_singleton.mp hmem)⟩

private theorem mem_setValue_iff {t : List (K × V)} (h : (t.map (·.1)).Nodup) :
    (x, y) ∈ setValue k v t ↔ if x = k then y = v else (x, y) ∈ t := by
  induction t with
  | nil =>
    rw [setValue, List.mem_singleton, Prod.mk.injEq]
    split
    · next hx => exact and_iff_right hx
    · next hx => exact iff_of_false (fun hmem => hx hmem.1) List.not_mem_nil
  | cons e es ih =>
    obtain ⟨he, hes⟩ := List.nodup_cons.mp h
    unfold setValue
    split
    · next hk =>
      subst hk
      rw [List.mem_cons, List.mem_cons, Prod.mk.injEq]
      split
      · next hx =>
        subst hx
        have hrest : (e.1, y) ∉ es := fun hmem => he (List.mem_map.mpr ⟨_, hmem, rfl⟩)
        rw [or_iff_left hrest]
        exact and_iff_right rfl
      · next hx =>
        have hfirst : (x, y) ≠ e := fun heq => hx (congrArg Prod.fst heq)
        rw [or_iff_right (fun hmem => hx hmem.1), or_iff_right hfirst]
    · next hk =>
      rw [List.mem_cons, List.mem_cons, ih hes]
      split
      · next hx =>
        have hfirst : (x, y) ≠ e := fun heq => hk (heq ▸ hx)
        exact or_iff_right hfirst
      · exact Iff.rfl

theorem ofEntries_concat (entries : List (K × V)) (e : K × V) :
    ofEntries (entries ++ [e]) = setValue e.1 e.2 (ofEntries entries) := List.foldl_append

/-- A table holds what its entries tell. -/
theorem mem_ofEntries_iff (entries : List (K × V)) :
    (x, y) ∈ ofEntries entries ↔ Tells entries x y := by
  induction entries using List.reverseRecOn with
  | nil =>
    refine iff_of_false List.not_mem_nil ?_
    rintro ⟨before, later, hnil, -⟩
    exact List.append_ne_nil_of_right_ne_nil before (List.cons_ne_nil _ later) hnil.symm
  | append_singleton entries e ih =>
    rw [ofEntries_concat, mem_setValue_iff (keys_ofEntries_nodup entries), ih]
    exact tells_concat_iff.symm

theorem mem_keys_ofEntries_iff (entries : List (K × V)) :
    k ∈ (ofEntries entries).map (·.1) ↔ k ∈ entries.map (·.1) := by
  induction entries using List.reverseRecOn with
  | nil => exact Iff.rfl
  | append_singleton entries e ih =>
    rw [ofEntries_concat, mem_keys_setValue, ih, List.map_append, List.mem_append, or_comm,
      List.map_singleton, List.mem_singleton]

theorem value?_eq_none_iff {t : List (K × V)} : value? k t = none ↔ k ∉ t.map (·.1) := by
  rw [value?, Option.map_eq_none_iff, List.find?_eq_none, List.mem_map]
  simp only [decide_eq_true_eq, not_exists, not_and]

end Telling

/-! ## Which tables are accepted -/

section Accepting

variable {W : Type} [DecidableEq W] {title : String} {members : List W} {name : W → String}
  {entries : List (W × String)}

theorem table_of_ofTable {m : Mapping members} (h : ofTable title members name entries = .ok m) :
    m.table = ofEntries entries := by
  unfold ofTable at h
  dsimp only at h
  split at h
  · split at h
    · split at h
      · cases h
        rfl
      · cases h
    · cases h
  · cases h

/-- A table is accepted exactly if it has every member, no text twice, and the empty text. -/
theorem exists_ofTable_iff :
    (∃ m, ofTable title members name entries = .ok m) ↔
      (∀ w ∈ members, w ∈ (ofEntries entries).map (·.1)) ∧
        ((ofEntries entries).map (·.2)).Nodup ∧ "" ∈ (ofEntries entries).map (·.2) := by
  constructor
  · rintro ⟨m, h⟩
    rw [← table_of_ofTable h]
    exact ⟨m.covers, m.texts_nodup, List.mem_map.mpr ⟨_, m.unspecified_mem, rfl⟩⟩
  · rintro ⟨hcovers, htexts, hempty⟩
    unfold ofTable
    dsimp only
    rw [dif_pos hcovers, dif_pos ((length_reversed_eq_iff _).mpr htexts)]
    split
    · exact ⟨_, rfl⟩
    · next hnone =>
      rw [value?_eq_none_iff, reversed, mem_keys_ofEntries_iff, List.map_map] at hnone
      exact absurd hempty hnone

/-- No text stands twice in a table exactly if it is told of one member at most. -/
private theorem texts_ofEntries_nodup_iff (entries : List (W × String)) :
    ((ofEntries entries).map (·.2)).Nodup ↔
      ∀ v w text, Tells entries v text → Tells entries w text → v = w := by
  have hkeys := keys_ofEntries_nodup entries
  rw [List.nodup_map_iff_inj_on hkeys.of_map]
  simp only [Prod.forall, mem_ofEntries_iff, Prod.mk.injEq]
  constructor
  · exact fun h v w text hv hw => (h v text hv w text hw rfl).1
  · rintro h v text hv w _ hw rfl
    exact ⟨h v w text hv hw, rfl⟩

theorem mem_texts_ofEntries_iff {text : String} :
    text ∈ (ofEntries entries).map (·.2) ↔ ∃ w, Tells entries w text := by
  simp only [List.mem_map, Prod.exists, exists_eq_right, mem_ofEntries_iff]

private theorem mem_members_ofEntries_iff {w : W} :
    w ∈ (ofEntries entries).map (·.1) ↔ ∃ text, Tells entries w text := by
  simp only [List.mem_map, Prod.exists, exists_and_right, exists_eq_right, mem_ofEntries_iff]

end Accepting

/-! ## Both directions -/

section Directions

variable {W : Type} [DecidableEq W] {members : List W} (m : Mapping members) {w : W} {text : String}

theorem toDomain?_eq_some_iff : m.toDomain? w = some text ↔ (w, text) ∈ m.table := by
  constructor
  · exact value?_mem
  · intro h
    have hfind : m.table.find? (fun e => decide (e.1 = w)) = some (w, text) :=
      find?_of_nodup_map m.keys_nodup h fun e => decide_eq_true_iff
    rw [toDomain?, hfind]
    rfl

theorem toDomain_of_mem (h : (w, text) ∈ m.table) : m.toDomain w = text := by
  rw [toDomain, m.toDomain?_eq_some_iff.mpr h, Option.getD_some]

theorem toWire_of_mem (h : (w, text) ∈ m.table) : m.toWire text = w := by
  have hfind : m.table.find? (fun e => e.2 == text) = some (w, text) :=
    find?_of_nodup_map m.texts_nodup h fun e => beq_iff_eq
  rw [toWire, hfind]
  rfl

theorem toWire_of_not_mem (h : text ∉ m.table.map (·.2)) : m.toWire text = m.unspecified := by
  have hfind : m.table.find? (fun e => e.2 == text) = none :=
    List.find?_eq_none.mpr fun e he heq => h (List.mem_map.mpr ⟨e, he, beq_iff_eq.mp heq⟩)
  rw [toWire, hfind]
  rfl

/-- A member is found again by its text. -/
theorem toWire_toDomain (hw : w ∈ members) : m.toWire (m.toDomain w) = w := by
  obtain ⟨⟨_, text⟩, he, rfl⟩ := List.mem_map.mp (m.covers w hw)
  rw [m.toDomain_of_mem he, m.toWire_of_mem he]

/-- A text of the table is found again by its member. -/
theorem toDomain_toWire (h : text ∈ m.table.map (·.2)) : m.toDomain (m.toWire text) = text := by
  obtain ⟨⟨w, _⟩, he, rfl⟩ := List.mem_map.mp h
  rw [m.toWire_of_mem he, m.toDomain_of_mem he]

theorem mem_domainTexts_iff : text ∈ m.domainTexts ↔ text ∈ m.table.map (·.2) ∧ text ≠ "" := by
  rw [domainTexts, List.mem_filter, bne_iff_ne]

private theorem domainTexts_nodup : m.domainTexts.Nodup := m.texts_nodup.filter _

/-- Of the texts of a table one is empty. -/
private theorem length_domainTexts : m.domainTexts.length + 1 = m.table.length := by
  have hempty : "" ∈ m.table.map (·.2) := List.mem_map.mpr ⟨_, m.unspecified_mem, rfl⟩
  have herase : m.domainTexts = (m.table.map (·.2)).erase "" :=
    (m.texts_nodup.erase_eq_filter "").symm
  have hpos := List.length_pos_of_mem hempty
  rw [herase, List.length_erase_of_mem hempty, Nat.sub_add_cancel hpos, List.length_map]

/-- A table of members has as many entries as there are members. -/
private theorem length_table (hmembers : members.Nodup) (hkeys : ∀ e ∈ m.table, e.1 ∈ members) :
    m.table.length = members.length := by
  have hsame : ∀ w, w ∈ m.table.map (·.1) ↔ w ∈ members := fun w =>
    ⟨fun hw => by obtain ⟨e, he, rfl⟩ := List.mem_map.mp hw; exact hkeys e he, m.covers w⟩
  have hperm := (List.perm_ext_iff_of_nodup m.keys_nodup hmembers).mpr hsame
  rw [← hperm.length_eq, List.length_map]

/-- A member is looked up in the table read from its texts to its members. -/
theorem toWire_eq_value?_reversed :
    m.toWire text = (value? text (reversed m.table)).getD m.unspecified := by
  by_cases h : text ∈ m.table.map (·.2)
  · cases hvalue : value? text (reversed m.table) with
    | none =>
      rw [value?_eq_none_iff, reversed, mem_keys_ofEntries_iff, List.map_map] at hvalue
      exact absurd h hvalue
    | some w => rw [m.toWire_of_mem (mem_of_value?_reversed hvalue), Option.getD_some]
  · have hnone : value? text (reversed m.table) = none := by
      rw [value?_eq_none_iff, reversed, mem_keys_ofEntries_iff, List.map_map]
      exact h
    rw [m.toWire_of_not_mem h, hnone, Option.getD_none]

end Directions

/-- A table from members to texts is accepted exactly if it tells a text of every member, no text of
two, and the empty text of one. An accepted table tells the text of a member, and the two directions
are inverse to each other on the members and on the texts of the table. Any other text is read as the
member of the empty one; without that, there is one text fewer than there are members. -/
theorem ofTable_reads_both_ways {W : Type} [DecidableEq W] (title : String) {members : List W}
    (hmembers : members.Nodup) (name : W → String) {entries : List (W × String)}
    (hentries : ∀ e ∈ entries, e.1 ∈ members) :
    ((∃ m, ofTable title members name entries = .ok m) ↔
      (∀ w ∈ members, ∃ text, Tells entries w text) ∧
        (∀ v w text, Tells entries v text → Tells entries w text → v = w) ∧
        ∃ w, Tells entries w "") ∧
      ∀ m, ofTable title members name entries = .ok m →
        (∀ w text, m.toDomain? w = some text ↔ Tells entries w text) ∧
        (∀ text, text ∈ m.domainTexts ↔ (∃ w, Tells entries w text) ∧ text ≠ "") ∧
        (∀ w ∈ members, m.toWire (m.toDomain w) = w) ∧
        (∀ text, text ∈ m.domainTexts ∨ text = "" → m.toDomain (m.toWire text) = text) ∧
        (∀ text, text ∉ m.domainTexts → text ≠ "" → Tells entries (m.toWire text) "") ∧
        m.domainTexts.Nodup ∧ m.domainTexts.length + 1 = members.length := by
  constructor
  · simp only [exists_ofTable_iff, texts_ofEntries_nodup_iff, mem_texts_ofEntries_iff,
      mem_members_ofEntries_iff]
  · intro m hm
    have htable := table_of_ofTable hm
    have htells (w : W) (text : String) : (w, text) ∈ m.table ↔ Tells entries w text := by
      rw [htable, mem_ofEntries_iff]
    have htexts (text : String) : text ∈ m.table.map (·.2) ↔ ∃ w, Tells entries w text := by
      rw [htable, mem_texts_ofEntries_iff]
    have hkeys : ∀ e ∈ m.table, e.1 ∈ members := fun e he =>
      hentries e (mem_of_mem_ofEntries (htable ▸ he))
    have hempty : "" ∈ m.table.map (·.2) := List.mem_map.mpr ⟨_, m.unspecified_mem, rfl⟩
    refine ⟨fun w text => m.toDomain?_eq_some_iff.trans (htells w text), fun text => ?_,
      fun w hw => m.toWire_toDomain hw, ?_, ?_, m.domainTexts_nodup,
      m.length_domainTexts.trans (m.length_table hmembers hkeys)⟩
    · rw [m.mem_domainTexts_iff, htexts]
    · rintro text (htext | rfl)
      · exact m.toDomain_toWire (m.mem_domainTexts_iff.mp htext).1
      · exact m.toDomain_toWire hempty
    · intro text htext hne
      have hout : text ∉ m.table.map (·.2) := fun hmem =>
        htext (m.mem_domainTexts_iff.mpr ⟨hmem, hne⟩)
      rw [m.toWire_of_not_mem hout, ← htells]
      exact m.unspecified_mem

/-- The table of the data types with something else told of one of them before. -/
def corrected : List (Name DataType × String) := (.stated .text, "NUMERIC") :: entries DataType

/-- The entry that is corrected neither counts as one of its own nor takes a text from another. -/
theorem ofTable_reads_both_ways_corrected :
    let members := Enumeration.members (α := Name DataType)
    members.Nodup ∧ (∀ e ∈ corrected, e.1 ∈ members) ∧
      ∃ m, ofTable "DataTypeWire" members Name.label corrected = .ok m ∧
        (∀ w ∈ members, m.toWire (m.toDomain w) = w) ∧
        (∀ text, text ∈ m.domainTexts ∨ text = "" → m.toDomain (m.toWire text) = text) ∧
        Tells corrected (m.toWire "DATE") "" ∧ m.domainTexts.length + 1 = members.length := by
  intro members
  have hmembers : members.Nodup := by decide
  have hcorrected : ∀ e ∈ corrected, e.1 ∈ members := by decide
  have hdate : "DATE" ∉ (ofEntries corrected).map (·.2) := by decide
  obtain ⟨m, hm⟩ : ∃ m, ofTable "DataTypeWire" members Name.label corrected = .ok m :=
    exists_ofTable_iff.mpr (by decide)
  obtain ⟨-, -, hwire, hdomain, hother, -, hcount⟩ :=
    (ofTable_reads_both_ways "DataTypeWire" hmembers Name.label hcorrected).2 m hm
  refine ⟨hmembers, hcorrected, m, hm, hwire, hdomain, hother "DATE" (fun h => hdate ?_) (by decide),
    hcount⟩
  rw [← table_of_ofTable hm]
  exact (m.mem_domainTexts_iff.mp h).1

/-- Two members of one text. -/
example : ofTable "DataTypeWire" (Enumeration.members (α := Name DataType)) Name.label
    (entries DataType ++ [(.stated .text, "NUMERIC")]) = .error (.notOneToOne "DataTypeWire") := rfl

end CostCatalog.Wire.Mapping
