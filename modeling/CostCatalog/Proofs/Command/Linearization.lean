import CostCatalog.Proofs.Command.Amendments
import CostCatalog.Proofs.Samples
import Mathlib.Data.Fintype.Card
import Mathlib.Data.List.Induction

/-!
# Changing and ending the same entry many times at once

A command that changes an entry finds it first and stores the change after that; in between others
may have changed the entry, or ended it. Still all that a command does it does in one step, and it
comes to the same result there as it would if it were carried out alone at that point. So commands
side by side can be put in an order in which, carried out one after the other, they come to the same
results and leave the same row, `amend_side_by_side`. A command that is done before another has begun
comes before it.

`Serialized` is what the order so far, the phases of all commands and the store have to do with each
other.
-/

namespace CostCatalog.Command

variable {k : Kind} {c : Code k} {holds : Entry k → Bool} {horizon : Nat} {row : Option (Entry k)}
variable {ι : Type}

/-! ## Orders -/

/-- A property of each element of a list and those before it. -/
def Each (P : List ι → ι → Prop) (l : List ι) : Prop := ∀ before i, before ++ [i] <+: l → P before i

variable {P Q : List ι → ι → Prop} {l : List ι}

theorem Each.imp (h : Each P l) (himp : ∀ before, ∀ i ∈ l, P before i → Q before i) : Each Q l := by
  intro before i hfront
  exact himp before i (hfront.subset List.mem_concat_self) (h before i hfront)

theorem Each.of_mem (h : Each P l) {i : ι} (hi : i ∈ l) : ∃ before, P before i := by
  obtain ⟨before, after, rfl⟩ := List.append_of_mem hi
  exact ⟨before, h before i ⟨after, List.append_assoc ..⟩⟩

theorem Each.concat (h : Each P l) {i : ι} (hi : P l i) : Each P (l ++ [i]) := by
  intro before j hfront
  rcases List.prefix_concat_iff.mp hfront with heq | hfront
  · obtain ⟨rfl, hj⟩ := List.append_inj' heq rfl
    cases hj
    exact hi
  · exact h before j hfront

/-! ## One after the other -/

/-- The world after commands carried out one after the other. -/
def oneByOne (runs : ι → Amendment k) (clock : ι → Timestamp) (w : World) (order : List ι) : World :=
  order.foldl (fun w i => ((runs i).alone (clock i) w).2) w

/-- The row after the effects of courses, one after the other. -/
def rowAfter (courses : ι → Course k) (holds : Entry k → Bool) (row : Option (Entry k))
    (order : List ι) : Option (Entry k) :=
  order.foldl (fun row i => ((courses i).effect holds row).2) row

variable {courses : ι → Course k} {runs : ι → Amendment k}

theorem rowAfter_concat (order : List ι) (i : ι) :
    rowAfter courses holds row (order ++ [i]) =
      ((courses i).effect holds (rowAfter courses holds row order)).2 := by
  rw [rowAfter, List.foldl_append]
  rfl

/-- No course makes a row where there is none. -/
theorem rowAfter_none (order : List ι) : rowAfter courses holds none order = none := by
  induction order with
  | nil => rfl
  | cons i order ih =>
    rw [rowAfter, List.foldl_cons, Course.effect_of_none]
    exact ih

private theorem oneByOne_concat (clock : ι → Timestamp) (w : World) (order : List ι) (i : ι) :
    oneByOne runs clock w (order ++ [i]) =
      ((runs i).alone (clock i) (oneByOne runs clock w order)).2 := by
  rw [oneByOne, List.foldl_append]
  rfl

/-- The row is the one that was there, or that of a draft with the making of that one. -/
private theorem rowAfter_cases {order : List ι} {e : Entry k}
    (h : e ∈ rowAfter courses holds row order) :
    ∃ old ∈ row, e = old ∨ ∃ i d, courses i = .update (.ok d) ∧
      e = (Entry.withStoredBounds d).madeAs (Entry.audit old) none := by
  induction order using List.reverseRecOn generalizing e with
  | nil => exact ⟨e, h, Or.inl rfl⟩
  | append_singleton order i ih =>
    rw [rowAfter_concat] at h
    obtain ⟨e', he', rfl | ⟨d, hd, rfl⟩⟩ := Course.effect_row h
    · exact ih he'
    · obtain ⟨old, hold, rfl | ⟨j, d', -, rfl⟩⟩ := ih he'
      · exact ⟨_, hold, Or.inr ⟨i, d, hd, rfl⟩⟩
      · exact ⟨old, hold, Or.inr ⟨i, d, hd, by rw [Entry.madeAs_madeAs]⟩⟩

/-- A row is the one that was there or what one command made of that, up to its time of change; who
made it and when is as it was. -/
structure Amended (runs : ι → Amendment k) (old new : Entry k) : Prop where
  columns : new.untimed = old.untimed ∨ ∃ i cmd edit now e, runs i = .update cmd ∧
    cmd.edit = .ok edit ∧ edit now old = .ok e ∧ new.untimed = (e.replaced old).untimed
  createdAt : (Entry.audit new).createdAt = (Entry.audit old).createdAt
  createdBy : (Entry.audit new).createdBy = (Entry.audit old).createdBy

/-- The row of an order is one that some command made, or the one that was there. -/
private theorem amended_of_mem [Fintype ι] {order : List ι} {old new : Entry k}
    (htakes : ∀ i, (runs i).Takes c (courses i)) (hcode : old.code = c)
    (hlimit : horizon + Fintype.card ι < wallLimit) (hwithin : (Entry.audit old).Within horizon)
    (h : new.untimed ∈ rowAfter courses holds (some old.untimed) order) : Amended runs old new := by
  obtain ⟨old', hold', heq | ⟨i, d, hd, heq⟩⟩ := rowAfter_cases h
  · cases hold'
    obtain ⟨hat, hby⟩ := Entry.making_of_untimed heq
    exact ⟨Or.inl heq, hat, hby⟩
  · cases hold'
    have hnext : (Entry.audit old).HasNext :=
      ⟨horizon, hwithin, Nat.lt_of_le_of_lt
        (Nat.add_le_add_left (Fintype.card_pos_iff.mpr ⟨i⟩) horizon) hlimit⟩
    have hi := hd ▸ htakes i
    cases hrun : runs i with
    | delete code =>
      rw [hrun] at hi
      cases hi
    | update cmd =>
      rw [hrun] at hi
      cases hi with
      | @update cmd edit draft hedit hforgetful =>
        obtain ⟨-, t, hok, -⟩ := hforgetful .epoch old rfl hnext hcode
        have hcolumns : new.untimed = Entry.untimed
            (Entry.replaced (d.madeAs (Entry.audit old) (some t)) old) := by
          rw [heq, Entry.madeAs_untimed, Entry.untimed_replaced_madeAs]
        obtain ⟨hat, hby⟩ := Entry.making_of_untimed hcolumns
        obtain ⟨hat', hby'⟩ := Entry.making_replaced (d.madeAs (Entry.audit old) (some t)) old
        exact ⟨Or.inr ⟨i, cmd, edit, .epoch, _, hrun, hedit, hok, hcolumns⟩, hat.trans hat',
          hby.trans hby'⟩

/-- Commands carried out one after the other leave the row that their effects leave. -/
theorem oneByOne_shows (hcode : ∀ i, (runs i).codeText = c.text)
    (htakes : ∀ i, (runs i).Takes c (courses i)) {clock : ι → Timestamp}
    (hclock : ∀ i, (clock i).Within horizon) {w : World}
    (hshows : w.store.Shows c holds horizon row) (order : List ι)
    (hlimit : horizon + order.length < wallLimit) :
    (oneByOne runs clock w order).store.Shows c holds (horizon + order.length)
      (rowAfter courses holds row order) := by
  induction order using List.reverseRecOn with
  | nil => exact hshows
  | append_singleton order i ih =>
    rw [List.length_append, List.length_singleton] at hlimit ⊢
    rw [oneByOne_concat, rowAfter_concat]
    exact ((htakes i).alone (hcode i) (ih (Nat.lt_of_succ_lt hlimit)) (hclock i)
      (Nat.le_add_right ..) hlimit).2

/-! ## Side by side -/

/-- Commands on one code side by side, each before its first step. -/
def amendments (runs : ι → Amendment k) (w : World) : Pool ι (Except Fault (Option (Entry k))) :=
  .ofActions (fun i => (runs i).action (Repository.stored k)) w

/-- The commands that have taken effect, in the order in which they did: each came to the result of
its course on the row that those before it left; the others can still go on. -/
structure Serialized (courses : ι → Course k) (holds : Entry k → Bool) (c : Code k) (horizon : Nat)
    (row : Option (Entry k)) (order : List ι) (phases : ι → Phase k) (w : World) : Prop where
  nodup : order.Nodup
  settled : Each (fun before i => phases i = .settled
    ((courses i).effect holds (rowAfter courses holds row before)).1) order
  waiting : ∀ i, i ∉ order → (phases i).Pursues (courses i) (rowAfter courses holds row order)
    (horizon + order.length)
  clock : w.wall.Within horizon
  shows : w.store.Shows c holds (horizon + order.length) (rowAfter courses holds row order)

namespace Serialized

variable {order : List ι} {phases : ι → Phase k} {w : World}

theorem mem_of_settled (h : Serialized courses holds c horizon row order phases w) {i : ι}
    {x : Except Fault (Option (Entry k))} (hi : phases i = .settled x) : i ∈ order := by
  by_contra hnot
  have hwaiting := h.waiting i hnot
  rw [hi] at hwaiting
  cases hwaiting

/-- No row is left once an end has taken effect. -/
private theorem row_none (h : Serialized courses holds c horizon row order phases w) {i : ι}
    (hi : phases i = .settled (.ok none)) : rowAfter courses holds row order = none := by
  obtain ⟨before, after, rfl⟩ := List.append_of_mem (h.mem_of_settled hi)
  have hresult : phases i = _ := h.settled before i ⟨after, List.append_assoc ..⟩
  rw [hi] at hresult
  have hgone := Course.effect_none (Phase.settled.inj hresult).symm
  rw [rowAfter, List.foldl_append, List.foldl_cons]
  show rowAfter courses holds
    ((courses i).effect holds (rowAfter courses holds row before)).2 after = none
  rw [hgone, rowAfter_none]

variable [DecidableEq ι]

/-- A command takes its place when it takes effect. -/
theorem concat (h : Serialized courses holds c horizon row order phases w) {i : ι} (hi : i ∉ order)
    {w' : World} (hwall : w'.wall = w.wall)
    (hshows : w'.store.Shows c holds (horizon + order.length + 1)
      ((courses i).effect holds (rowAfter courses holds row order)).2) :
    Serialized courses holds c horizon row (order ++ [i])
      (Function.update phases i
        (.settled ((courses i).effect holds (rowAfter courses holds row order)).1)) w' where
  nodup := by
    rw [← List.concat_eq_append]
    exact h.nodup.concat hi
  settled := by
    refine Each.concat (h.settled.imp ?_) (Function.update_self ..)
    intro before j hj hphase
    have hji : j ≠ i := fun hji => hi (hji ▸ hj)
    rw [Function.update_of_ne hji]
    exact hphase
  waiting j hj := by
    rw [List.mem_append, List.mem_singleton, not_or] at hj
    rw [Function.update_of_ne hj.2, rowAfter_concat, List.length_append, List.length_singleton]
    exact (h.waiting j hj.1).effect (courses i)
  clock := hwall ▸ h.clock
  shows := by
    rw [rowAfter_concat, List.length_append, List.length_singleton]
    exact hshows

/-- A command goes on without taking effect. -/
theorem update (h : Serialized courses holds c horizon row order phases w) {i : ι} (hi : i ∉ order)
    {g : Phase k} (hg : g.Pursues (courses i) (rowAfter courses holds row order)
      (horizon + order.length)) {w' : World} (hwall : w'.wall = w.wall)
    (hshows : w'.store.Shows c holds (horizon + order.length) (rowAfter courses holds row order)) :
    Serialized courses holds c horizon row order (Function.update phases i g) w' where
  nodup := h.nodup
  settled := by
    refine h.settled.imp ?_
    intro before j hj hphase
    have hji : j ≠ i := fun hji => hi (hji ▸ hj)
    rw [Function.update_of_ne hji]
    exact hphase
  waiting j hj := by
    by_cases hji : j = i
    · subst hji
      rw [Function.update_self]
      exact hg
    · rw [Function.update_of_ne hji]
      exact h.waiting j hj
  clock := hwall ▸ h.clock
  shows := hshows

end Serialized

/-- One reply leaves the order so far, and may put a command behind it. -/
theorem serialized_kept [DecidableEq ι] [Fintype ι] (hlimit : horizon + Fintype.card ι < wallLimit)
    (old : List ι) :
    Pool.Kept (amends c horizon) (fun (phases : ι → Phase k) w => ∃ order, old <+: order ∧
      Serialized courses holds c horizon row order phases w) (fun _ => True) := by
  rintro phases w i r ⟨order, hold, h⟩ hmay -
  by_cases hi : i ∈ order
  · obtain ⟨before, hphase⟩ := h.settled.of_mem hi
    change (phases i).May c horizon r at hmay
    rw [hphase] at hmay
    obtain ⟨hrelies, hwall, hafter, hstore⟩ := answer_settled h.clock hmay
    refine ⟨hrelies, order, hold, ?_⟩
    show Serialized courses holds c horizon row order
      (Function.update phases i ((phases i).after r (w.answer r).1)) (w.answer r).2
    rw [hphase, hafter, ← hphase, Function.update_eq_self]
    exact ⟨h.nodup, h.settled, h.waiting, hwall ▸ h.clock, hstore ▸ h.shows⟩
  · have hlength : order.length + 1 ≤ Fintype.card ι :=
      (List.nodup_cons.mpr ⟨hi, h.nodup⟩).length_le_card
    obtain ⟨hrelies, hwall, hnext⟩ := answer_pursuing (h.waiting i hi) h.shows h.clock
      (Nat.le_add_right ..) (by omega) hmay
    refine ⟨hrelies, ?_⟩
    rcases hnext with ⟨hpursues, hshows⟩ | ⟨hsettled, hshows⟩
    · exact ⟨order, hold, h.update hi hpursues hwall hshows⟩
    · refine ⟨order ++ [i], hold.trans (List.prefix_append ..), ?_⟩
      show Serialized courses holds c horizon row _
        (Function.update phases i ((phases i).after r (w.answer r).1)) (w.answer r).2
      rw [hsettled]
      exact h.concat hi hwall hshows

private theorem rowAfter_refused {order : List ι} (h : ∀ i ∈ order, ∃ f, courses i = .refused f) :
    rowAfter courses holds row order = row := by
  induction order with
  | nil => rfl
  | cons i order ih =>
    obtain ⟨f, hf⟩ := h i (List.mem_cons_self ..)
    rw [rowAfter, List.foldl_cons, hf]
    exact ih fun j hj => h j (List.mem_cons_of_mem i hj)

/-- Before the first step the commands that are refused for their texts are in order. -/
private theorem exists_serialized [Fintype ι] {w : World} (hclock : w.wall.Within horizon)
    (hshows : w.store.Shows c holds horizon row) :
    ∃ order, Serialized courses holds c horizon row order (fun i => (courses i).start) w := by
  classical
  let refused := Finset.univ.filter fun i => ∃ f, courses i = .refused f
  have hmem : ∀ i, i ∈ refused.toList ↔ ∃ f, courses i = .refused f := by
    intro i
    rw [Finset.mem_toList, Finset.mem_filter_univ]
  have hrow : rowAfter courses holds row refused.toList = row :=
    rowAfter_refused fun i hi => (hmem i).mp hi
  refine ⟨refused.toList, refused.nodup_toList, ?_, ?_, hclock, ?_⟩
  · intro before i hfront
    obtain ⟨f, hf⟩ := (hmem i).mp (hfront.subset List.mem_concat_self)
    simp only [hf]
    rfl
  · intro i hi
    rw [Course.start_of_ne fun f hf => hi ((hmem i).mpr ⟨f, hf⟩)]
    exact .fresh
  · rw [hrow]
    exact hshows.mono (Nat.le_add_right ..)

/-! ## Time -/

/-- Of two commands, one done and one that has not begun, only the first is in order. -/
theorem Serialized.separates {order : List ι} {phases : ι → Phase k} {w : World}
    {p : Pool ι (Except Fault (Option (Entry k)))}
    (h : Serialized courses holds c horizon row order phases p.world)
    (hcode : ∀ i, (runs i).codeText = c.text) (htakes : ∀ i, (runs i).Takes c (courses i))
    (hp : p.Follows (amends c horizon) (fun _ => Phase.Ends) phases) {i j : ι}
    (hi : ∃ x, p.programs i = .done x) (hj : phases j = (courses j).start)
    (hbegins : ∀ x, (amendments runs w).programs j ≠ .done x) : i ∈ order ∧ j ∉ order := by
  obtain ⟨x, hx⟩ := hi
  refine ⟨h.mem_of_settled (hp.ended hx), ?_⟩
  intro hmem
  obtain ⟨before, hsettled⟩ := h.settled.of_mem hmem
  by_cases hrefused : ∃ f, courses j = .refused f
  · obtain ⟨f, hf⟩ := hrefused
    obtain ⟨x, hx⟩ := (hf ▸ htakes j).done (hcode j)
    exact hbegins x hx
  · rw [hj, Course.start_of_ne fun f hf => hrefused ⟨f, hf⟩] at hsettled
    cases hsettled

variable [DecidableEq ι]

/-- A command that is done before another begins comes before it; a command that asks for nothing
does not begin. -/
def KeepsTime (runs : ι → Amendment k) (w : World) (turns : List (Turn ι)) (order : List ι) :
    Prop :=
  ∀ first i j, first <+: turns → (∃ x, ((amendments runs w).run first).programs i = .done x) →
    (∀ u ∈ first, u.who ≠ j) → (∀ x, (amendments runs w).programs j ≠ .done x) →
    ∃ before, before <+: order ∧ i ∈ before ∧ j ∉ before

/-- Every schedule puts its commands in an order that keeps time. -/
theorem serialized_run [Fintype ι] {w : World} (hcode : ∀ i, (runs i).codeText = c.text)
    (htakes : ∀ i, (runs i).Takes c (courses i)) (hlimit : horizon + Fintype.card ι < wallLimit)
    (hclock : w.wall.Within horizon) (hshows : w.store.Shows c holds horizon row)
    (turns : List (Turn ι)) (hturns : ∀ u ∈ turns, u.wall.Within horizon) :
    ∃ phases order, ((amendments runs w).run turns).Follows (amends c horizon)
        (fun _ => Phase.Ends) phases ∧
      Serialized courses holds c horizon row order phases ((amendments runs w).run turns).world ∧
      (∀ j, (∀ u ∈ turns, u.who ≠ j) → phases j = (courses j).start) ∧
      KeepsTime runs w turns order := by
  -- From the last turn backwards: the order of a schedule begins with that of each shorter one.
  induction turns using List.reverseRecOn with
  | nil =>
    obtain ⟨order, h⟩ : ∃ order, Serialized courses holds c horizon row order _ _ :=
      exists_serialized hclock hshows
    have hp : (amendments runs w).Follows (amends c horizon) (fun _ => Phase.Ends)
        (fun i => (courses i).start) := fun i => follows_amendment (hcode i) (htakes i)
    refine ⟨_, order, hp, h, fun _ _ => rfl, ?_⟩
    intro first i j hfirst hi _ hj
    rw [List.prefix_nil] at hfirst
    subst hfirst
    exact ⟨order, List.prefix_refl order, h.separates hcode htakes hp hi rfl hj⟩
  | append_singleton turns t ih =>
    obtain ⟨phases, order, hp, h, hstart, htime⟩ :=
      ih fun u hu => hturns u (List.mem_append_left _ hu)
    have ht := hturns t List.mem_concat_self
    have hrun : (amendments runs w).run (turns ++ [t]) =
        ((amendments runs w).run turns).step t := by
      rw [Pool.run, List.foldl_append]
      rfl
    obtain ⟨phases', hp', ⟨order', hfront, h'⟩, hsame⟩ := Pool.step_follows
      (serialized_kept hlimit order) (t := t)
      (fun _ _ ⟨order', hfront, h⟩ => ⟨order', hfront, h.nodup, h.settled, h.waiting, ht, h.shows⟩)
      hp ⟨order, List.prefix_refl order, h⟩ trivial
    rw [← hrun] at hp' h'
    have hstart' : ∀ j, (∀ u ∈ turns ++ [t], u.who ≠ j) → phases' j = (courses j).start := by
      intro j hj
      rw [hsame j (hj t List.mem_concat_self)]
      exact hstart j fun u hu => hj u (List.mem_append_left _ hu)
    refine ⟨phases', order', hp', h', hstart', ?_⟩
    intro first i j hfirst hi hunmoved hj
    rcases List.prefix_concat_iff.mp hfirst with rfl | hfirst
    · exact ⟨order', List.prefix_refl order',
        h'.separates hcode htakes hp' hi (hstart' j hunmoved) hj⟩
    · obtain ⟨before, hbefore, hmem⟩ := htime first i j hfirst hi hunmoved hj
      exact ⟨before, hbefore.trans hfront, hmem⟩

/-! ## Outcomes -/

/-- An order of commands in which, carried out one after the other at any times, they come to the
same results and leave the same row as a schedule of their steps, up to times of change. -/
structure Linearizes (runs : ι → Amendment k) (c : Code k) (horizon : Nat) (w : World)
    (turns : List (Turn ι)) (order : List ι) : Prop where
  nodup : order.Nodup
  all : ∀ i, i ∈ order
  results : ∀ clock : ι → Timestamp, (∀ i, (clock i).Within horizon) →
    ∀ before i, before ++ [i] <+: order →
      ∃ x, ((amendments runs w).run turns).programs i = .done x ∧
        upToTime x = upToTime ((runs i).alone (clock i) (oneByOne runs clock w before)).1
  row : ∀ clock : ι → Timestamp, (∀ i, (clock i).Within horizon) →
    upToTime (((amendments runs w).run turns).world.store.find c) =
      upToTime ((oneByOne runs clock w order).store.find c)
  time : KeepsTime runs w turns order

private theorem Serialized.linearizes [Fintype ι] {w : World}
    (hcode : ∀ i, (runs i).codeText = c.text)
    (htakes : ∀ i, (runs i).Takes c (courses i)) (hlimit : horizon + Fintype.card ι < wallLimit)
    (hshows : w.store.Shows c holds horizon row) {turns : List (Turn ι)} {phases : ι → Phase k}
    {order : List ι}
    (h : Serialized courses holds c horizon row order phases ((amendments runs w).run turns).world)
    (hp : ((amendments runs w).run turns).Follows (amends c horizon) (fun _ => Phase.Ends) phases)
    (hdone : ((amendments runs w).run turns).Finished) (htime : KeepsTime runs w turns order) :
    Linearizes runs c horizon w turns order where
  nodup := h.nodup
  all i := by
    obtain ⟨x, hx⟩ := hdone i
    exact h.mem_of_settled (hp.ended hx)
  results clock hclock before i hfront := by
    obtain ⟨x, hx⟩ := hdone i
    refine ⟨x, hx, ?_⟩
    have hsettled : phases i = _ := h.settled before i hfront
    rw [show phases i = _ from hp.ended hx] at hsettled
    have hlength := hfront.length_le.trans h.nodup.length_le_card
    rw [List.length_append, List.length_singleton] at hlength
    have hbefore := oneByOne_shows hcode htakes hclock hshows before (by omega)
    rw [Phase.settled.inj hsettled]
    exact ((htakes i).alone (hcode i) hbefore (hclock i) (Nat.le_add_right ..) (by omega)).1.symm
  row clock hclock := by
    have hlength := h.nodup.length_le_card
    rw [h.shows.upToTime_find,
      (oneByOne_shows hcode htakes hclock hshows order (by omega)).upToTime_find]
  time := htime

/-- Commands that change or end the entry with a code, side by side in any order of their steps.
Once all are done they come to the same results and leave the same row as in some order of the whole
commands. At every moment the row, if any, is the first one or what a single command made of that,
with its making unchanged; and once an end has succeeded there is no row any more. Clock and row are
so far from the end of the calendar that no command lacks a time to write. -/
theorem amend_side_by_side [Fintype ι] (runs : ι → Amendment k) (turns : List (Turn ι)) {w : World}
    {t : Table k} (hwritable : w.store.writable k = .ok t) (hcode : ∀ i, (runs i).codeText = c.text)
    (hlimit : horizon + Fintype.card ι < wallLimit) (hclock : w.wall.Within horizon)
    (hturns : ∀ u ∈ turns, u.wall.Within horizon)
    (hrow : ∀ e ∈ t.find? c, ∀ p ∈ (Entry.audit e).latest, p.wall ≤ horizon) :
    (((amendments runs w).run turns).Finished → ∃ order, Linearizes runs c horizon w turns order) ∧
      (∀ new, ((amendments runs w).run turns).world.store.find c = .ok (some new) →
        ∃ old, t.find? c = some old ∧ Amended runs old new) ∧
      (∀ first i, first <+: turns →
        ((amendments runs w).run first).programs i = .done (.ok none) →
          ((amendments runs w).run turns).world.store.find c = .ok none) := by
  choose courses htakes using fun i => (runs i).exists_takes c
  have hwithin : ∀ e ∈ t.find? c, (Entry.audit e).Within horizon := fun e he =>
    (Table.find?_spec he).1.audit.within (hrow e he)
  have hshows : w.store.Shows c w.store.referenceHolds horizon ((t.find? c).map Entry.untimed) :=
    ⟨⟨t, hwritable, rfl, hwithin⟩, fun _ => rfl⟩
  obtain ⟨phases, order, hp, h, -, htime⟩ :=
    serialized_run hcode htakes hlimit hclock hshows turns hturns
  obtain ⟨x, hx, hxrow, -⟩ := h.shows.find
  refine ⟨fun hdone => ⟨order, h.linearizes hcode htakes hlimit hshows hp hdone htime⟩, ?_, ?_⟩
  · intro new hnew
    rw [hx] at hnew
    cases hnew
    cases hfound : t.find? c with
    | none =>
      rw [hfound, Option.map_none, rowAfter_none] at hxrow
      cases hxrow
    | some old =>
      rw [hfound] at hxrow
      exact ⟨old, rfl, amended_of_mem htakes (Table.find?_spec hfound).2 hlimit
        (hwithin old hfound) hxrow.symm⟩
  · rintro first i ⟨rest, rfl⟩ hi
    have hstill : ((amendments runs w).run (first ++ rest)).programs i = .done (.ok none) := by
      rw [Pool.run, List.foldl_append]
      exact Pool.run_done hi rest
    rw [h.row_none (hp.ended hstill), Option.map_eq_none_iff] at hxrow
    rw [hx, hxrow]

/-- One caller renames the kilogram, another ends it. -/
def amenders : Fin 2 → Amendment .uom
  | 0 => .update Sample.rename
  | 1 => .delete "KG"

/-- The kilogram is ended after its change was begun and before that is stored. -/
theorem amend_side_by_side_in_between :
    ((amendments amenders Sample.stocked).run Sample.inBetween).Finished ∧
      ∃ order, Linearizes amenders (Sample.kilogram "").code 0 Sample.stocked Sample.inBetween
        order := by
  have hdone : ((amendments amenders Sample.stocked).run Sample.inBetween).Finished
    | 0 => ⟨_, rfl⟩
    | 1 => ⟨_, rfl⟩
  have hcode : ∀ i, (amenders i).codeText = (Sample.kilogram "").code.text
    | 0 => rfl
    | 1 => rfl
  have hepoch : Timestamp.epoch.Within 0 := ⟨rfl, Nat.le_refl 0⟩
  have hturns : ∀ u ∈ Sample.inBetween, u.wall.Within 0 :=
    List.forall_mem_map.mpr fun i _ => hepoch
  have hlimit : 0 + Fintype.card (Fin 2) < wallLimit := by
    rw [Fintype.card_fin]
    decide
  refine ⟨hdone, (amend_side_by_side amenders Sample.inBetween rfl hcode hlimit hepoch hturns
    ?_).1 hdone⟩
  intro e he p hp
  cases he
  cases hp
  exact Nat.le_refl 0

end CostCatalog.Command
