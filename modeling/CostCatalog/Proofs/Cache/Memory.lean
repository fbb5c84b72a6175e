import CostCatalog.Cache.Uses
import CostCatalog.Proofs.Cache.Keys
import CostCatalog.Proofs.Cache.Slots
import CostCatalog.Proofs.Json.Values
import CostCatalog.Proofs.Keyed
import Mathlib.Data.List.Induction
import Mathlib.Logic.Function.Basic

/-!
# The cache as a map with times

A cache behaves as a map in which each value stands with the time at which it ends, nothing is
written as text and nothing goes out by itself. What is in the map under a key is the value that was
set last, unless it was dropped later, `Memory.after_eq_some_iff`; a value that cannot be written or
has no end is not set. Every call keeps a cache in agreement with its map, `Use.mirrors_on`: what the
cache has dropped without being told to has ended by a reading of the clock, and so is not read at any
later one. The laws of reads are put together in `get_after`.

Two things are as they are only for a reason. The end of a value is the rounded sum of two doubles,
which can be as early as a reading that the exact sum is later than; and two halves of a surrogate
pair, one directly behind the other in a text, come back as one character
(`early_end_and_joined_halves`).
-/

namespace CostCatalog.Cache

variable {τ : Type} {c : Cache} {depth : Json.Depth} {stem key : String}
  {past : List Float}

/-! ## The slots under a key -/

theorem slots_put (c : Cache) (new : Slot) : (c.put new).slots = placed Slot.key c.slots new := by
  unfold put placed find?
  split <;> rfl

theorem find?_put_self (c : Cache) (new : Slot) : (c.put new).find? new.key = some new := by
  rw [find?, slots_put, find?_placed_self]

theorem find?_put_of_ne {new : Slot} (h : key ≠ new.key) : (c.put new).find? key = c.find? key := by
  rw [find?, slots_put, find?_placed_of_ne h]
  rfl

/-- A cache without some of its slots. -/
def keep (c : Cache) (kept : Slot → Bool) : Cache := { c with slots := c.slots.filter kept }

private theorem find?_keep (h : (c.slots.map Slot.key).Nodup) (kept : Slot → Bool) (key : String) :
    (c.keep kept).find? key = (c.find? key).filter kept :=
  find?_filter_of_nodup_map h kept key

theorem delete_eq_keep (c : Cache) (keys : List String) :
    c.delete keys = c.keep fun s => keys.all fun key => s.key != c.stem ++ key := by
  unfold delete
  induction keys generalizing c with
  | nil => simp [keep]
  | cons key keys ih =>
    rw [List.foldl_cons, ih]
    simp [keep, erase, List.filter_filter, Bool.and_comm]

/-- Until when a value that is set is kept; it is not kept at all if it cannot be written or has no
end. -/
def kept? (depth : Json.Depth) (v : Json τ) (ttl : Duration) (now : Float) : Option Float :=
  if v.isWritable depth then (endAfter ttl now).toOption else none

/-- A value that is kept is written, after what has ended was dropped. Any other is a fault: the cache
stays as it is, or loses what has ended if the fault is not one of the cache. -/
theorem set_json [Textual τ] (c : Cache) (key : String) (v : Json τ) (ttl : Duration)
    (now swept : Float) :
    (∃ ends, kept? c.depth v ttl now = some ends ∧ c.set key (.json v) ttl now swept =
      (.ok (), (c.sweep swept).put ⟨c.stem ++ key, ends, v.printAscii⟩)) ∨
    (kept? c.depth v ttl now = none ∧ ∃ f, c.set key (.json v) ttl now swept = (.error f, c) ∨
      c.set key (.json v) ttl now swept = (.error f, c.sweep swept) ∧ f.isOfCache = false) := by
  unfold kept? set
  by_cases hv : v.isWritable c.depth = true
  · rw [written_of_isWritable hv, if_pos hv]
    cases hends : endAfter ttl now with
    | ok ends => exact .inl ⟨ends, rfl, rfl⟩
    | error f =>
      refine .inr ⟨rfl, f, .inr ⟨rfl, ?_⟩⟩
      cases ttl with
      | real ttl => cases hends
      | whole ttl =>
        unfold endAfter at hends
        dsimp only at hends
        split at hends
        · cases hends
        · cases hends
          rfl
  · obtain ⟨o, hwritten, -⟩ := written_of_not_isWritable hv
    rw [hwritten, if_neg hv]
    exact .inr ⟨rfl, _, .inl rfl⟩

/-- A value that the cache refuses leaves every entry as it was. -/
private theorem set_error [Textual τ] {value : Storable τ} {ttl : Duration} {now swept : Float}
    {f : Fault} (hf : f.isOfCache = true) (h : (c.set key value ttl now swept).1 = .error f) :
    (c.set key value ttl now swept).2 = c := by
  cases value with
  | foreign type => rfl
  | json v =>
    rcases c.set_json key v ttl now swept with ⟨ends, -, hset⟩ | ⟨-, g, hset | ⟨hset, hg⟩⟩
    · rw [hset] at h
      cases h
    · rw [hset]
    · rw [hset] at h
      cases h
      rw [hf] at hg
      cases hg

/-- A read leaves the cache as it is, or drops an entry whose time is up. -/
private theorem getAs_snd (τ : Type) [Textual τ] [DecidableEq τ] (c : Cache) (key : String)
    (now : Float) :
    (c.getAs τ key now).2 = c ∨ ∃ slot, c.find? (c.stem ++ key) = some slot ∧
      slot.expiresAt ≤ now ∧ (c.getAs τ key now).2 = c.erase (c.stem ++ key) := by
  unfold getAs
  cases hfind : c.find? (c.stem ++ key) with
  | none => exact Or.inl rfl
  | some slot =>
    by_cases hover : slot.expiresAt ≤ now
    · exact Or.inr ⟨slot, rfl, hover, by simp [hover]⟩
    · cases hread : Json.decode (τ := τ) c.depth (Textual.points slot.payload) <;>
        simp [hover, hread]

/-! ## A map with times -/

/-- A map from keys to values, each with the time at which it ends. -/
abbrev Memory (τ : Type) := String → Option (Float × Json τ)

namespace Memory

/-- The map after a call of a cache with a stem. -/
def on (depth : Json.Depth) (stem : String) (m : Memory τ) : Use τ → Memory τ
  | .set key v ttl _ now =>
    match kept? depth v ttl now with
    | some ends => Function.update m key (some (ends, v))
    | none => m
  | .get _ _ => m
  | .delete keys => fun key => if key ∈ keys then none else m key
  | .deleteMatching pattern =>
    fun key => if Glob.isMatch (stem ++ pattern) (stem ++ key) then none else m key

/-- The map after some calls, from the empty one. -/
def after (depth : Json.Depth) (stem : String) (us : List (Use τ)) : Memory τ :=
  us.foldl (Memory.on depth stem) fun _ => none

/-- What is read from the map. -/
def get (m : Memory τ) (key : String) (now : Float) : Option (Json τ) :=
  match m key with
  | some (ends, v) => if ends ≤ now then none else some v
  | none => none

end Memory

/-- The calls that decide what is kept under a key: those that keep a value under it, and those that
drop it by name or by pattern. -/
def Use.Touches (depth : Json.Depth) (stem key : String) : Use τ → Prop
  | .set name v ttl _ now => name = key ∧ (kept? depth v ttl now).isSome
  | .get _ _ => False
  | .delete keys => key ∈ keys
  | .deleteMatching pattern => Glob.isMatch (stem ++ pattern) (stem ++ key)

/-- A value was kept under a key, to end at a time, and no later call has decided otherwise. -/
def KeptLast (depth : Json.Depth) (stem : String) (us : List (Use τ)) (key : String) (v : Json τ)
    (ends : Float) : Prop :=
  ∃ before ttl swept now later, us = before ++ .set key v ttl swept now :: later ∧
    kept? depth v ttl now = some ends ∧ ∀ u ∈ later, ¬ u.Touches depth stem key

/-- One more call that decides nothing leaves what was kept last. -/
private theorem keptLast_append_of_not_touches {us : List (Use τ)} {u : Use τ}
    (h : ¬ u.Touches depth stem key) {v : Json τ} {ends : Float} :
    KeptLast depth stem (us ++ [u]) key v ends ↔ KeptLast depth stem us key v ends := by
  constructor
  · rintro ⟨before, ttl, swept, now, later, hus, hkept, hlater⟩
    rcases List.eq_nil_or_concat' later with rfl | ⟨later, last, rfl⟩
    · obtain ⟨-, rfl⟩ := List.append_inj' hus rfl |>.imp id List.singleton_inj.mp
      exact absurd ⟨rfl, Option.isSome_of_eq_some hkept⟩ h
    · rw [← List.cons_append, ← List.append_assoc] at hus
      obtain ⟨rfl, -⟩ := List.append_inj' hus rfl
      exact ⟨before, ttl, swept, now, later, rfl, hkept,
        fun u hu => hlater u (List.mem_append_left _ hu)⟩
  · rintro ⟨before, ttl, swept, now, later, rfl, hkept, hlater⟩
    refine ⟨before, ttl, swept, now, later ++ [u], by simp, hkept, fun w hw => ?_⟩
    rcases List.mem_append.mp hw with hw | hw
    · exact hlater w hw
    · rwa [List.mem_singleton.mp hw]

/-- One more call that decides leaves what it keeps itself. -/
private theorem keptLast_append_of_touches {us : List (Use τ)} {u : Use τ}
    (h : u.Touches depth stem key) {v : Json τ} {ends : Float} :
    KeptLast depth stem (us ++ [u]) key v ends ↔
      ∃ ttl swept now, u = .set key v ttl swept now ∧ kept? depth v ttl now = some ends := by
  constructor
  · rintro ⟨before, ttl, swept, now, later, hus, hkept, hlater⟩
    rcases List.eq_nil_or_concat' later with rfl | ⟨later, last, rfl⟩
    · obtain ⟨-, rfl⟩ := List.append_inj' hus rfl |>.imp id List.singleton_inj.mp
      exact ⟨ttl, swept, now, rfl, hkept⟩
    · rw [← List.cons_append, ← List.append_assoc] at hus
      obtain ⟨-, hlast⟩ := List.append_inj' hus rfl
      rw [List.singleton_inj.mp hlast] at h
      exact absurd h (hlater last (by simp))
  · rintro ⟨ttl, swept, now, rfl, hkept⟩
    exact ⟨us, ttl, swept, now, [], rfl, hkept, fun _ hu => nomatch hu⟩

namespace Memory

private theorem on_set_kept {m : Memory τ} {v : Json τ} {ttl : Duration} {now ends : Float}
    (hkept : kept? depth v ttl now = some ends) (swept : Float) :
    m.on depth stem (.set key v ttl swept now) = Function.update m key (some (ends, v)) := by
  rw [on, hkept]

private theorem on_set_refused {m : Memory τ} {v : Json τ} {ttl : Duration} {now : Float}
    (hkept : kept? depth v ttl now = none) (swept : Float) :
    m.on depth stem (.set key v ttl swept now) = m := by
  rw [on, hkept]

private theorem on_of_not_touches {u : Use τ} (h : ¬ u.Touches depth stem key) (m : Memory τ) :
    m.on depth stem u key = m key := by
  cases u with
  | set name v ttl swept now =>
    cases hkept : kept? depth v ttl now with
    | none => rw [on_set_refused hkept]
    | some ends =>
      have hname : key ≠ name := fun heq => h ⟨heq.symm, Option.isSome_of_eq_some hkept⟩
      rw [on_set_kept hkept, Function.update_of_ne hname]
  | get name now => rfl
  | delete keys => exact if_neg h
  | deleteMatching pattern => exact if_neg h

/-- A call that decides what is kept under a key keeps a value, or leaves nothing. -/
private theorem on_eq_some_iff {u : Use τ} (h : u.Touches depth stem key) (m : Memory τ)
    {v : Json τ} {ends : Float} :
    m.on depth stem u key = some (ends, v) ↔
      ∃ ttl swept now, u = .set key v ttl swept now ∧ kept? depth v ttl now = some ends := by
  cases u with
  | set name w ttl swept now =>
    obtain ⟨rfl, hkept⟩ := h
    obtain ⟨ends', hkept⟩ := Option.isSome_iff_exists.mp hkept
    rw [on_set_kept hkept, Function.update_self]
    constructor
    · intro heq
      cases heq
      exact ⟨ttl, swept, now, rfl, hkept⟩
    · rintro ⟨ttl', swept', now', heq, hends⟩
      cases heq
      cases hkept.symm.trans hends
      rfl
  | get name now => cases h
  | delete keys =>
    have hon : m.on depth stem (.delete keys) key = none := if_pos h
    simp [hon]
  | deleteMatching pattern =>
    have hon : m.on depth stem (.deleteMatching pattern) key = none := if_pos h
    simp [hon]

/-- What the map holds under a key is what was kept last. -/
theorem after_eq_some_iff {us : List (Use τ)} {v : Json τ} {ends : Float} :
    Memory.after depth stem us key = some (ends, v) ↔ KeptLast depth stem us key v ends := by
  induction us using List.reverseRecOn with
  | nil =>
    constructor
    · intro h
      cases h
    · rintro ⟨before, ttl, swept, now, later, hus, -⟩
      simp at hus
  | append_singleton us u ih =>
    have hlast : Memory.after depth stem (us ++ [u]) =
        (Memory.after depth stem us).on depth stem u := by
      rw [after, List.foldl_append]
      rfl
    rw [hlast]
    by_cases htouches : u.Touches depth stem key
    · rw [on_eq_some_iff htouches, keptLast_append_of_touches htouches]
    · rw [on_of_not_touches htouches, ih, keptLast_append_of_not_touches htouches]

private theorem get_eq_some_iff {m : Memory τ} {v : Json τ} {now : Float} :
    m.get key now = some v ↔ ∃ ends, m key = some (ends, v) ∧ ¬ ends ≤ now := by
  unfold get
  cases hheld : m key with
  | none => simp
  | some e =>
    obtain ⟨ends, w⟩ := e
    by_cases hover : ends ≤ now <;> simp [hover]

end Memory

/-! ## Agreement -/

variable [Textual τ]

/-- What the map holds under a key is found under the full key, or it has ended by one of the readings
of the clock. -/
def Shows (past : List Float) (full : String) (held : Option (Float × Json τ))
    (found : Option Slot) : Prop :=
  found = held.map (fun e => ⟨full, e.1, e.2.printAscii⟩) ∨
    found = none ∧ ∃ ends v, held = some (ends, v) ∧ ∃ t ∈ past, ends ≤ t

/-- A cache agrees with a map after some readings of the clock. -/
structure Mirrors (c : Cache) (depth : Json.Depth) (stem : String) (m : Memory τ)
    (past : List Float) : Prop where
  depth_eq : c.depth = depth
  stem_eq : c.stem = stem
  keys_nodup : (c.slots.map Slot.key).Nodup
  shows_key : ∀ key, Shows past (stem ++ key) (m key) (c.find? (stem ++ key))

theorem mirrors_empty (depth : Json.Depth) (stem : String) :
    Mirrors (τ := τ) { stem, depth } depth stem (fun _ => none) [] :=
  ⟨rfl, rfl, List.nodup_nil, fun _ => Or.inl rfl⟩

theorem Shows.mono {full : String} {held : Option (Float × Json τ)} {found : Option Slot}
    {past' : List Float} (h : Shows past full held found) (hpast : past ⊆ past') :
    Shows past' full held found := by
  rcases h with h | ⟨hfound, ends, v, hheld, t, ht, hends⟩
  · exact Or.inl h
  · exact Or.inr ⟨hfound, ends, v, hheld, t, hpast ht, hends⟩

/-- Dropping what has ended does no harm. -/
theorem Shows.filter {full : String} {held : Option (Float × Json τ)} {found : Option Slot}
    (h : Shows past full held found) {kept : Slot → Bool}
    (hkept : ∀ slot, found = some slot → kept slot = true ∨ ∃ t ∈ past, slot.expiresAt ≤ t) :
    Shows past full held (found.filter kept) := by
  cases found with
  | none => exact h
  | some slot =>
    by_cases hslot : kept slot = true
    · rwa [Option.filter_some, if_pos hslot]
    · obtain ⟨t, ht, hover⟩ := (hkept slot rfl).resolve_left hslot
      rw [Option.filter_some, if_neg hslot]
      rcases h with h | ⟨hnone, -⟩
      · obtain ⟨e, hheld, rfl⟩ := Option.map_eq_some_iff.mp h.symm
        exact Or.inr ⟨rfl, e.1, e.2, hheld, t, ht, hover⟩
      · cases hnone

namespace Mirrors

variable {m m' : Memory τ} {past' : List Float}

theorem mono (h : c.Mirrors depth stem m past) (hpast : past ⊆ past') : c.Mirrors depth stem m past' :=
  ⟨h.depth_eq, h.stem_eq, h.keys_nodup, fun key => (h.shows_key key).mono hpast⟩

/-- A cache may lose a slot that the map loses, and one that has ended. -/
theorem keep (h : c.Mirrors depth stem m past) (hpast : past ⊆ past') {kept : Slot → Bool}
    (hkept : ∀ key,
      (m' key = none ∧ ∀ slot, c.find? (stem ++ key) = some slot → kept slot = false) ∨
      (m' key = m key ∧ ∀ slot, c.find? (stem ++ key) = some slot →
        kept slot = true ∨ ∃ t ∈ past', slot.expiresAt ≤ t)) :
    (c.keep kept).Mirrors depth stem m' past' := by
  refine ⟨h.depth_eq, h.stem_eq, h.keys_nodup.sublist (List.filter_sublist.map Slot.key),
    fun key => ?_⟩
  rw [find?_keep h.keys_nodup]
  rcases hkept key with ⟨hnone, hdropped⟩ | ⟨hsame, hended⟩
  · apply Or.inl
    rw [hnone]
    cases hfind : c.find? (stem ++ key) with
    | none => rfl
    | some slot => simp [Option.filter_some, hdropped slot hfind]
  · rw [hsame]
    exact ((h.shows_key key).mono hpast).filter hended

theorem put (h : c.Mirrors depth stem m past) (key : String) (v : Json τ) (ends : Float) :
    (c.put ⟨stem ++ key, ends, v.printAscii⟩).Mirrors depth stem
      (Function.update m key (some (ends, v))) past := by
  refine ⟨(depth_put _).trans h.depth_eq, (stem_put _).trans h.stem_eq, ?_, fun other => ?_⟩
  · rw [slots_put]
    exact nodup_map_placed h.keys_nodup _
  · by_cases hother : other = key
    · subst hother
      apply Or.inl
      rw [Function.update_self]
      exact find?_put_self c ⟨stem ++ other, ends, v.printAscii⟩
    · have hfull : stem ++ other ≠ stem ++ key := fun heq => hother (Filter.append_left_cancel heq)
      rw [Function.update_of_ne hother, find?_put_of_ne hfull]
      exact h.shows_key other

theorem sweep (h : c.Mirrors depth stem m past) (now : Float) :
    (c.sweep now).Mirrors depth stem m (past ++ [now]) := by
  refine h.keep (List.subset_append_left ..) fun key => Or.inr ⟨rfl, fun slot _ => ?_⟩
  by_cases hover : slot.expiresAt ≤ now
  · exact Or.inr ⟨now, by simp, hover⟩
  · exact Or.inl (by simp [hover])

theorem getAs [DecidableEq τ] (h : c.Mirrors depth stem m past) (key : String) (now : Float) :
    (c.getAs τ key now).2.Mirrors depth stem m (past ++ [now]) := by
  have hpast : past ⊆ past ++ [now] := List.subset_append_left ..
  rcases getAs_snd τ c key now with hsame | ⟨ended, hfind, hover, herased⟩
  · rw [hsame]
    exact h.mono hpast
  · rw [herased]
    refine h.keep hpast fun other => Or.inr ⟨rfl, fun slot hslot => ?_⟩
    rw [h.stem_eq] at hfind ⊢
    by_cases hother : other = key
    · subst hother
      cases hfind.symm.trans hslot
      exact Or.inr ⟨now, by simp, hover⟩
    · have hkey := (find?_spec hslot).2
      exact Or.inl (by simp [hkey, hother])

theorem delete (h : c.Mirrors depth stem m past) (keys : List String) :
    (c.delete keys).Mirrors depth stem (m.on depth stem (.delete keys)) past := by
  rw [delete_eq_keep]
  refine h.keep (List.Subset.refl past) fun key => ?_
  by_cases hkey : key ∈ keys
  · refine Or.inl ⟨if_pos hkey, fun slot hslot => ?_⟩
    rw [List.all_eq_false]
    exact ⟨key, hkey, by simp [(find?_spec hslot).2, h.stem_eq]⟩
  · refine Or.inr ⟨if_neg hkey, fun slot hslot => Or.inl ?_⟩
    rw [List.all_eq_true]
    intro other hother
    have hne : key ≠ other := fun heq => hkey (heq ▸ hother)
    simp [(find?_spec hslot).2, h.stem_eq, hne]

theorem deleteMatching (h : c.Mirrors depth stem m past) (pattern : String) :
    (c.deleteMatching pattern).2.Mirrors depth stem (m.on depth stem (.deleteMatching pattern))
      past := by
  refine h.keep (List.Subset.refl past) fun key => ?_
  by_cases hmatch : Glob.isMatch (stem ++ pattern) (stem ++ key) = true
  · refine Or.inl ⟨if_pos hmatch, fun slot hslot => ?_⟩
    rw [(find?_spec hslot).2, h.stem_eq, hmatch]
    rfl
  · refine Or.inr ⟨if_neg hmatch, fun slot hslot => Or.inl ?_⟩
    rw [(find?_spec hslot).2, h.stem_eq]
    simpa using hmatch

/-- A read of a cache is a read of its map, if the clock has never shown a later time and the value
that is held comes back from its text. -/
theorem getAs_fst [DecidableEq τ] (h : c.Mirrors depth stem m past) {now : Float}
    (hpast : ∀ t ∈ past, t ≤ now)
    (hread : ∀ ends v, m key = some (ends, v) →
      Json.decode depth (Textual.points v.printAscii) = .ok v) :
    (c.getAs τ key now).1 = .ok (m.get key now) := by
  unfold Cache.getAs Memory.get
  rw [h.stem_eq, h.depth_eq]
  rcases h.shows_key key with hfind | ⟨hfind, ends, v, hheld, t, ht, hends⟩
  · cases hheld : m key with
    | none => simp [hfind, hheld]
    | some e =>
      obtain ⟨ends, v⟩ := e
      by_cases hover : ends ≤ now <;> simp [hfind, hheld, hover, hread ends v hheld]
  · -- It went out unbidden, so it has ended by a reading that was not after this one.
    have hover : ends ≤ now := Binary64.le_trans hends (hpast t ht)
    simp [hfind, hheld, hover]

end Mirrors

/-! ## Runs -/

section

variable {m : Memory τ}

/-- A cache to which a kept value was written agrees with the map to which it was set. -/
private theorem Mirrors.write (h : c.Mirrors depth stem m past) (key : String) {v : Json τ}
    {ttl : Duration} {now ends : Float} (hkept : kept? depth v ttl now = some ends)
    (swept : Float) :
    (c.put ⟨stem ++ key, ends, v.printAscii⟩).Mirrors depth stem
      (m.on depth stem (.set key v ttl swept now)) past := by
  rw [Memory.on_set_kept hkept]
  exact h.put key v ends

/-- The cache after a value is set, had nothing been dropped for having ended. -/
def setUnswept (c : Cache) (key : String) (v : Json τ) (ttl : Duration) (now : Float) : Cache :=
  match kept? c.depth v ttl now with
  | some ends => c.put ⟨c.stem ++ key, ends, v.printAscii⟩
  | none => c

private theorem Mirrors.setUnswept (h : c.Mirrors depth stem m past) (key : String) (v : Json τ)
    (ttl : Duration) (swept now : Float) :
    (c.setUnswept key v ttl now).Mirrors depth stem (m.on depth stem (.set key v ttl swept now))
      past := by
  unfold Cache.setUnswept
  rw [h.depth_eq, h.stem_eq]
  cases hkept : kept? depth v ttl now with
  | some ends => exact h.write key hkept swept
  | none =>
    rw [Memory.on_set_refused hkept]
    exact h

variable [DecidableEq τ]

/-- Every call keeps a cache in agreement with its map. -/
theorem Use.mirrors_on (h : c.Mirrors depth stem m past) (u : Use τ) :
    (u.on c).Mirrors depth stem (m.on depth stem u) (past ++ u.readings) := by
  cases u with
  | set key v ttl swept now =>
    show (c.set key (.json v) ttl now swept).2.Mirrors depth stem _ _
    have hswept : (c.sweep swept).Mirrors depth stem m (past ++ [swept, now]) :=
      (h.sweep swept).mono (by simp)
    rcases c.set_json key v ttl now swept with ⟨ends, hkept, hset⟩ | ⟨hkept, f, hset⟩
    · rw [h.depth_eq] at hkept
      rw [hset, h.stem_eq]
      exact hswept.write key hkept swept
    · rw [h.depth_eq] at hkept
      rw [Memory.on_set_refused hkept]
      rcases hset with hset | ⟨hset, -⟩
      · rw [hset]
        exact h.mono (List.subset_append_left ..)
      · rw [hset]
        exact hswept
  | get key now => exact h.getAs key now
  | delete keys => exact (h.delete keys).mono (List.subset_append_left ..)
  | deleteMatching pattern => exact (h.deleteMatching pattern).mono (List.subset_append_left ..)

/-- A run keeps a cache in agreement with its map. -/
theorem Mirrors.after (h : c.Mirrors depth stem m past) (us : List (Use τ)) :
    (c.after us).Mirrors depth stem (us.foldl (Memory.on depth stem) m)
      (past ++ us.flatMap Use.readings) := by
  induction us generalizing c m past with
  | nil => simpa [Cache.after] using h
  | cons u us ih =>
    rw [List.flatMap_cons, ← List.append_assoc]
    exact ih (Use.mirrors_on h u)

/-- The laws of a cache. In a run of calls by a clock that does not go back, a read gives the value that
was kept last under its key, if its time is not up, and else nothing; a value that the cache refuses
leaves every entry as it was; and what a write drops because it has ended is never missed: without
that, every later read gives the same. No low half of a surrogate pair may stand directly behind a
high one in what is set under the key. -/
theorem get_after (stem : String) (depth : Json.Depth) (us : List (Use τ)) (key : String)
    (now : Float)
    (hvalues : ∀ v ttl swept t, .set key v ttl swept t ∈ us → v.WellNamed ∧ v.Unsplit)
    (hclock : (us.flatMap Use.readings ++ [now]).Pairwise (· ≤ ·)) :
    (∀ v, ((after { stem, depth } us).getAs τ key now).1 = .ok (some v) ↔
        ∃ ends, KeptLast depth stem us key v ends ∧ ¬ ends ≤ now) ∧
      ((¬ ∃ v ends, KeptLast depth stem us key v ends ∧ ¬ ends ≤ now) →
        ((after { stem, depth } us).getAs τ key now).1 = .ok none) ∧
      (∀ name (value : Storable τ) ttl swept t f, f.isOfCache →
        ((after { stem, depth } us).set name value ttl t swept).1 = .error f →
        ((after { stem, depth } us).set name value ttl t swept).2 = after { stem, depth } us) ∧
      ∀ before name v ttl swept t more, us = before ++ .set name v ttl swept t :: more →
        ((((after { stem, depth } before).setUnswept name v ttl t).after more).getAs τ key now).1 =
          ((after { stem, depth } us).getAs τ key now).1 := by
  have hpast : ∀ t ∈ us.flatMap Use.readings, t ≤ now := fun t ht =>
    (List.pairwise_append.mp hclock).2.2 t ht now (List.mem_singleton_self now)
  have hheld : ∀ ends v, Memory.after depth stem us key = some (ends, v) →
      Json.decode depth (Textual.points v.printAscii) = .ok v := by
    intro ends v hv
    obtain ⟨before, ttl, swept, t, later, rfl, hkept, -⟩ := Memory.after_eq_some_iff.mp hv
    obtain ⟨hnamed, hunsplit⟩ := hvalues v ttl swept t (by simp)
    have hwritable : v.isWritable depth = true := by
      by_contra hnot
      rw [kept?, if_neg hnot] at hkept
      cases hkept
    exact Json.decode_printAscii hnamed hunsplit hwritable
  have hread : ((after { stem, depth } us).getAs τ key now).1 =
      .ok ((Memory.after depth stem us).get key now) :=
    ((mirrors_empty depth stem).after us).getAs_fst hpast hheld
  refine ⟨fun v => ?_, fun hnone => ?_, fun name value ttl swept t f hf h => set_error hf h, ?_⟩
  · rw [hread, Except.ok.injEq, Memory.get_eq_some_iff]
    simp only [Memory.after_eq_some_iff]
  · rw [hread]
    cases hget : (Memory.after depth stem us).get key now with
    | none => rfl
    | some v =>
      obtain ⟨ends, hlast, hover⟩ := Memory.get_eq_some_iff.mp hget
      exact absurd ⟨v, ends, Memory.after_eq_some_iff.mp hlast, hover⟩ hnone
  · rintro before name v ttl swept t more rfl
    -- Without the sweep the cache agrees with the same map, after fewer readings of the clock.
    have hunswept := (((mirrors_empty depth stem).after before).setUnswept name v ttl swept t).after
      more
    rw [← List.foldl_cons, ← List.foldl_append] at hunswept
    have hpast' : ∀ u ∈ [] ++ before.flatMap Use.readings ++ more.flatMap Use.readings, u ≤ now := by
      intro u hu
      apply hpast u
      rw [List.flatMap_append, List.flatMap_cons]
      rcases List.mem_append.mp hu with hu | hu
      · exact List.mem_append_left _ hu
      · exact List.mem_append_right _ (List.mem_append_right _ hu)
    rw [hread]
    exact hunswept.getAs_fst hpast' hheld

end

/-- A value of all sorts: texts beyond ASCII, one of them a half of a surrogate pair, an integer, the
double of the same size, no number and no end. -/
def assortment : Json CodeText :=
  .ofFields [("code", .str (Textual.ofString "KG € 😀")), ("half", .str [.ofNat 0xD83D, .char '!']),
    ("one", .int 1), ("unit", .float 1.0),
    ("rest", .arr [.null, .bool false, .float (0.0 / 0.0), .float (1.0 / 0.0)])]

/-- An assortment is kept for a minute, and others come and go. -/
def bustle : List (Use CodeText) :=
  [.set "uom:KG" assortment (.whole 60) 0 0, .set "uom:list:all" (.arr []) (.real 2.5) 1 1,
    .set "uom:KG" .null (.whole (10 ^ 400)) 3 3, .get "uom:list:all" 4, .delete ["uom:M"],
    .deleteMatching "uom:list:*", .set "uom:M" .null (.whole 5) 5 6]

theorem get_after_bustle :
    ((after { stem := "costing:" } bustle).getAs CodeText "uom:KG" 59).1 = .ok (some assortment) := by
  have hnamed : assortment.WellNamed :=
    ⟨by decide +kernel, trivial, trivial, trivial, trivial,
      ⟨trivial, trivial, trivial, trivial, trivial⟩, trivial⟩
  have hunsplit : assortment.Unsplit := by
    simp only [assortment, Json.ofFields, Json.Unsplit, Json.EachText, Json.MembersEachText,
      Json.ItemsEachText, List.map_cons, List.map_nil, and_true]
    decide +kernel
  refine ((get_after "costing:" {} bustle "uom:KG" 59 ?_ ?_).1 assortment).mpr
    ⟨0 + 60, ⟨[], .whole 60, 0, 0, bustle.tail, rfl, by decide +kernel, ?_⟩, by decide +kernel⟩
  · intro v ttl swept t hmem
    simp only [bustle, List.mem_cons, Use.set.injEq, reduceCtorEq, List.not_mem_nil, or_false,
      false_or, String.reduceEq, false_and, true_and] at hmem
    rcases hmem with ⟨rfl, -⟩ | ⟨rfl, -⟩
    · exact ⟨hnamed, hunsplit⟩
    · exact ⟨trivial, trivial⟩
  · decide +kernel
  · intro u hu
    simp only [bustle, List.tail_cons, List.mem_cons, List.not_mem_nil, or_false] at hu
    rcases hu with rfl | rfl | rfl | rfl | rfl | rfl
    · simp [Use.Touches]
    · simp only [Use.Touches, true_and]
      decide +kernel
    · simp [Use.Touches]
    · simp [Use.Touches]
    · simp only [Use.Touches]
      decide +kernel
    · simp [Use.Touches]

/-- Two things that a map with exact times and plain values would do otherwise. A value kept for one
second from 0.15 on is not read at 1.15, though 0.15 and one are more than 1.15: the sum is rounded. And
the two halves of a surrogate pair come back as the character of the pair. -/
theorem early_end_and_joined_halves :
    ((after (τ := String) {} [.set "k" (.int 1) (.whole 1) 0.15 0.15]).getAs String "k" 1.15).1 =
        .ok none ∧
      (let start := Binary64.rank 0.15
      let reading := Binary64.rank 1.15
      Binary64.numerator reading * Binary64.denominator start <
        (Binary64.numerator start + Binary64.denominator start) * Binary64.denominator reading) ∧
      ((after (τ := CodeText) {} [.set "k" (.str [.half 0x3D, .half 0x600]) (.whole 1) 0 0]).getAs
        CodeText "k" 0).1 =
        .ok (some (.str [.char '😀'])) := by
  -- Faults and values are not compared as such, so what is read is told by what can be.
  have hnothing {x : Except Fault (Option Json)} (h : x.toOption.map Option.isNone = some true) :
      x = .ok none := by
    cases x with
    | error f => cases h
    | ok v =>
      rw [Option.isNone_iff_eq_none.mp (Option.some.inj h)]
  have htext {x : Except Fault (Option (Json CodeText))} {s : CodeText}
      (h : (x.toOption.bind fun v => v.bind Json.str?) = some s) : x = .ok (some (.str s)) := by
    cases x with
    | error f => cases h
    | ok v =>
      change v.bind Json.str? = some s at h
      obtain ⟨text, rfl, htext⟩ := Option.bind_eq_some_iff.mp h
      rw [Json.str?_eq_some_iff.mp htext]
  exact ⟨hnothing (by decide +kernel), by decide +kernel, htext (by decide +kernel)⟩

end CostCatalog.Cache
