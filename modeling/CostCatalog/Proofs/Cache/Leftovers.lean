import CostCatalog.Proofs.Cache.Stems
import CostCatalog.Proofs.Cache.Worlds
import CostCatalog.Proofs.Program.Breakdowns
import CostCatalog.Proofs.Repository.Requests
import CostCatalog.Proofs.Samples

/-!
# What a change leaves in the cache

A change drops what it touched from the cache by up to three calls: its own key, the lists of its
kind and, when a unit ends, all that is kept of parameters. Each of the calls can fail. What is
left by a call that was made and failed cannot be helped; but the lists are dropped only once the
own key has been, and a failure there leaves all of them, `Call.leaves_failed_only_iff`.
-/

namespace CostCatalog

variable {b : Breakdown}

/-! ## Answers that are kept -/

/-- The stem of a world's cache. -/
def World.stem (w : World) : String :=
  match w.cache with
  | .none => ""
  | .memory c => c.stem

/-- The answer to a query is kept in a world's cache. -/
def World.Keeps (w : World) (q : Query) : Prop := ∃ slot ∈ w.slots, slot.key = w.stem ++ q.key

/-- A call of the cache drops the answer to a query when it takes effect behind a stem. -/
def Request.Drops (stem : String) (q : Query) : Request → Prop
  | .cacheDelete key => q.key = key
  | .cacheDeleteMatching pattern => Glob.isMatch (stem ++ pattern) (stem ++ q.key) = true
  | _ => False

/-- From one world to another the cache has lost what some calls of it drop, as far as they do not
fail, and nothing else. -/
structure World.Forgets (b : Breakdown) (calls : List Request) (w w' : World) : Prop where
  up : w'.down = []
  store : w'.store = w.store
  stem : w'.stem = w.stem
  keeps : ∀ q, w'.Keeps q ↔ w.Keeps q ∧ ∀ r ∈ calls, b r = none → ¬ r.Drops w.stem q

namespace World

variable {w w₁ w₂ : World} {calls calls' : List Request}

theorem forgets_refl (hup : w.down = []) : w.Forgets b [] w :=
  ⟨hup, rfl, rfl, fun _ => (and_iff_left fun _ hr => nomatch hr).symm⟩

theorem Forgets.trans (h : w.Forgets b calls w₁) (h' : w₁.Forgets b calls' w₂) :
    w.Forgets b (calls ++ calls') w₂ := by
  refine ⟨h'.up, h'.store.trans h.store, h'.stem.trans h.stem, fun q => ?_⟩
  rw [h'.keeps, h.keeps, h.stem, and_assoc, List.forall_mem_append]

/-- A call that fails drops nothing. -/
private theorem forgets_of_failed {r : Request} (hup : w.down = []) (hr : b r ≠ none) :
    w.Forgets b [r] w := by
  refine ⟨hup, rfl, rfl, fun q => (and_iff_left ?_).symm⟩
  rintro _ hmem hnone
  rw [List.mem_singleton.mp hmem] at hnone
  exact absurd hnone hr

/-- Where nothing is kept there is nothing to drop. -/
private theorem forgets_of_none (hup : w.down = []) (h : w.cache = .none) : w.Forgets b calls w := by
  have hnothing (q : Query) : ¬ w.Keeps q := by
    rintro ⟨slot, hslot, -⟩
    rw [slots, h] at hslot
    cases hslot
  exact ⟨hup, rfl, rfl, fun q => iff_of_false (hnothing q) fun hkept => hnothing q hkept.1⟩

/-- A call that takes effect leaves the entries whose keys stay. -/
theorem Holds.forgets {c : Cache} {r : Request} (hc : w.Holds c) (hr : b r = none)
    (stays : String → Prop) {c' : Cache} (records : List LogRecord) (hstem : c'.stem = c.stem)
    (hslots : ∀ slot, slot ∈ c'.slots ↔ slot ∈ c.slots ∧ stays slot.key)
    (hstays : ∀ q : Query, stays (c.stem ++ q.key) ↔ ¬ r.Drops c.stem q) :
    w.Forgets b [r] { w with cache := .memory c', records } := by
  have hstem₀ : w.stem = c.stem := by rw [World.stem, hc.cache]
  refine ⟨hc.up, rfl, hstem.trans hstem₀.symm, fun q => ?_⟩
  rw [List.forall_mem_singleton, forall_prop_of_true hr, Keeps, Keeps, hc.slots, hstem₀, ← hstays]
  constructor
  · rintro ⟨slot, hslot, hkey⟩
    obtain ⟨hold, hstay⟩ := (hslots slot).mp hslot
    have hkey' : slot.key = c.stem ++ q.key := hkey.trans (congrArg (· ++ q.key) hstem)
    exact ⟨⟨slot, hold, hkey'⟩, hkey' ▸ hstay⟩
  · rintro ⟨⟨slot, hslot, hkey⟩, hstay⟩
    have hkey' : slot.key = c'.stem ++ q.key := hkey.trans (congrArg (· ++ q.key) hstem.symm)
    exact ⟨slot, (hslots slot).mpr ⟨hslot, hkey ▸ hstay⟩, hkey'⟩

/-- A call that drops something fails, or takes effect. -/
theorem exists_forgets {r : Request} {done : r.Reply} {failed : String → r.Reply}
    (hup : w.down = []) (hfailed : ∀ summary, r.failed summary = some (failed summary))
    (hnone : w.cache = .none → w.answer r = (done, w))
    (hmemory : ∀ c, w.Holds c → b r = none → ∃ w', w.answer r = (done, w') ∧ w.Forgets b [r] w') :
    ∃ w', w.answerUnder b r = ((b r).elim done failed, w') ∧ w.Forgets b [r] w' := by
  cases hr : b r with
  | some summary =>
    refine ⟨w, ?_, forgets_of_failed hup (by rw [hr]; exact Option.some_ne_none _)⟩
    rw [answerUnder, hr, Option.bind_some, hfailed]
    rfl
  | none =>
    rw [answerUnder_of_sound hr]
    cases hcache : w.cache with
    | none => exact ⟨w, hnone hcache, forgets_of_none hup hcache⟩
    | memory c => exact hmemory c ⟨hcache, hup⟩ hr

private theorem answerUnder_delete (hup : w.down = []) (key : String) :
    ∃ w', w.answerUnder b (.cacheDelete key) =
        ((b (.cacheDelete key)).elim (.ok ()) fun summary =>
          .error (CacheCall.delete.failed summary), w') ∧ w.Forgets b [.cacheDelete key] w' := by
  refine exists_forgets hup (fun _ => rfl) (fun hnone => ?_) fun c hc hr => ?_
  · simp only [answer, onCache, hup, hnone, List.not_mem_nil, if_false]
  · refine ⟨_, hc.answer_delete key, hc.forgets hr (· ≠ c.stem ++ key) w.records ?_ ?_ fun q => ?_⟩
    · rfl
    · exact fun _ => Cache.mem_delete_one
    · exact not_congr ⟨Filter.append_left_cancel, congrArg _⟩

theorem answerUnder_deleteMatching (hup : w.down = []) (pattern : String) :
    ∃ w', w.answerUnder b (.cacheDeleteMatching pattern) =
        ((b (.cacheDeleteMatching pattern)).elim (.ok ()) fun summary =>
          .error (CacheCall.deleteMatching.failed summary), w') ∧
      w.Forgets b [.cacheDeleteMatching pattern] w' := by
  refine exists_forgets hup (fun _ => rfl) (fun hnone => ?_) fun c hc hr => ?_
  · simp only [answer, deleteMatching, onCache, hup, hnone, List.not_mem_nil, if_false, if_true]
  · obtain ⟨records, hanswer⟩ := hc.answer_deleteMatching pattern
    refine ⟨_, hanswer,
      hc.forgets hr (Glob.isMatch (c.stem ++ pattern) · = false) records ?_ ?_ fun q => ?_⟩
    · rfl
    · exact fun _ => Cache.mem_deleteMatching
    · exact (Iff.of_eq (Bool.not_eq_true _)).symm

end World

/-! ## Actions that drop -/

/-- An action makes some calls of the cache, and drops what they drop. -/
def Action.Forgets (b : Breakdown) (calls : List Request) (a : Action Unit) : Prop :=
  ∀ w : World, w.down = [] → ∃ made w', a.performUnder b w = (.ok (), made, w') ∧
    w.Forgets b calls w' ∧ ∀ r : Request, r.IsCacheCall → (r ∈ made ↔ r ∈ calls)

namespace Action

variable {calls calls' : List Request}

theorem forgets_pure : Forgets b [] (pure () : Action Unit) :=
  fun w hup => ⟨[], w, rfl, World.forgets_refl hup, fun _ _ => Iff.rfl⟩

theorem forgets_log (r : LogRecord) : Forgets b [] (log r) := by
  refine fun w hup => ⟨_, _, performUnder_log r,
    ⟨hup, rfl, rfl, (World.forgets_refl hup).keeps⟩, fun r' hr' => ?_⟩
  refine iff_of_false (fun hmem => ?_) List.not_mem_nil
  obtain rfl := List.mem_singleton.mp hmem
  exact hr'

theorem Forgets.bind {a a' : Action Unit} (ha : a.Forgets b calls) (ha' : a'.Forgets b calls') :
    (do a; a').Forgets b (calls ++ calls') := by
  intro w hup
  obtain ⟨made, w₁, hrun, hforgets, hmade⟩ := ha w hup
  obtain ⟨made', w₂, hrun', hforgets', hmade'⟩ := ha' w₁ hforgets.up
  refine ⟨_, w₂, performUnder_bind_ok hrun hrun', hforgets.trans hforgets', fun r hr => ?_⟩
  rw [List.mem_append, List.mem_append, hmade r hr, hmade' r hr]

/-- A call of the cache, and what is made of its reply. -/
theorem forgets_call {r : Request} {reply : r.Reply} {f : r.Reply → Action Unit}
    (hanswer : ∀ w : World, w.down = [] →
      ∃ w', w.answerUnder b r = (reply, w') ∧ w.Forgets b [r] w')
    (hf : (f reply).Forgets b calls) : Forgets b (r :: calls) (request r >>= f) := by
  intro w hup
  obtain ⟨w₁, hreply, hforgets⟩ := hanswer w hup
  obtain ⟨made, w₂, hrun, hforgets', hmade⟩ := hf w₁ hforgets.up
  have hrequest : (request r).performUnder b w = (.ok reply, [r], w₁) := by
    rw [performUnder_request, hreply]
  refine ⟨_, w₂, performUnder_bind_ok hrequest hrun, hforgets.trans hforgets', fun r' hr' => ?_⟩
  rw [List.singleton_append, List.mem_cons, List.mem_cons, hmade r' hr']

end Action

open CostCatalog.Action

namespace Repository

private theorem forgetMatching_forgets (pattern : String) :
    (forgetMatching pattern).Forgets b [.cacheDeleteMatching pattern] := by
  refine forgets_call (fun w hup => w.answerUnder_deleteMatching hup pattern) ?_
  cases b (.cacheDeleteMatching pattern) with
  | none => exact forgets_pure
  | some summary => exact forgets_log _

/-- What matches the pattern is dropped only once the key has been. -/
theorem forget_forgets (key pattern : String) : (forget key pattern).Forgets b (.cacheDelete key ::
    if b (.cacheDelete key) = none then [.cacheDeleteMatching pattern] else []) := by
  refine forgets_call (fun w hup => w.answerUnder_delete hup key) ?_
  cases b (.cacheDelete key) with
  | some summary => exact forgets_log _
  | none =>
    refine forgets_call (fun w hup => w.answerUnder_deleteMatching hup pattern) ?_
    cases b (.cacheDeleteMatching pattern) with
    | none => exact forgets_pure
    | some summary => exact forgets_log _

end Repository

/-! ## Changes -/

/-- The change that a call makes when it succeeds. -/
def Call.change? : Call → Option Change
  | .create k e => some ⟨k, e.code, false⟩
  | .update k e => some ⟨k, e.code, false⟩
  | .delete k c => some ⟨k, c, true⟩
  | _ => none

namespace Change

/-- The call that drops the entry's own key. -/
def ownCall (ch : Change) : Request := .cacheDelete (Filter.entryKey ch.code)

/-- The call that drops the lists of the kind. -/
def listsCall (ch : Change) : Request := .cacheDeleteMatching (Filter.listPattern ch.kind)

/-- The call that drops all that is kept of parameters. -/
def sweepCall : Request := .cacheDeleteMatching (Filter.allPattern .parameter)

/-- The calls of the cache that are made after a change, in order. -/
def calls (ch : Change) (b : Breakdown) : List Request :=
  (ch.ownCall :: if b ch.ownCall = none then [ch.listsCall] else []) ++
    if ch.ends = true ∧ ch.kind = .uom then [sweepCall] else []

/-- The call that is to drop the answer to a query that a change touches. -/
def dropper (ch : Change) (q : Query) : Request :=
  if q.kind = ch.kind then
    match q with
    | .entry .. => ch.ownCall
    | .list .. => ch.listsCall
  else sweepCall

/-- Of the answers that a change touches those alone are still kept whose very calls have been made
and have failed. -/
def LeavesFailedOnly (ch : Change) (b : Breakdown) (made : List Request) (w : World) : Prop :=
  ∀ q, ch.Touches q → w.Keeps q → ch.dropper q ∈ made ∧ b (ch.dropper q) ≠ none

end Change

/-- What comes of a change and of the calls that are made after it. -/
structure Change.Comes (ch : Change) (b : Breakdown) (s : Store) (w : World) (made : List Request)
    (w' : World) : Prop where
  store : w'.store = s
  asked : ∀ r : Request, r.IsCacheCall → (r ∈ made ↔ r ∈ ch.calls b)
  /-- An answer is kept on unless it is dropped by a call that is made and does not fail. -/
  keeps : ∀ q, w'.Keeps q ↔ w.Keeps q ∧ ∀ r ∈ ch.calls b, b r = none → ¬ r.Drops w.stem q

/-- Behind a stem the patterns that are dropped after changes match the keys that they mean, and no
others. -/
def Cache.Fits (stem : String) : Prop :=
  Glob.isMatch stem stem = true ∧
    ∀ i : Cache.Invalidation, Glob.isMatch (stem ++ i.pattern) stem = false

theorem Cache.Fits.isMatch_iff {stem : String} (h : Cache.Fits stem) (i : Cache.Invalidation)
    (q : Query) : Glob.isMatch (stem ++ i.pattern) (stem ++ q.key) = true ↔ i.Means q :=
  (i.matches_meant_iff stem).mpr ⟨h.1, h.2 i⟩ q

/-- So it is behind a stem of plain characters. -/
private theorem Cache.fits_of_plain {stem : String} (h : ∀ c ∈ stem.toList, Glob.IsPlain c) :
    Cache.Fits stem := by
  have hmatches (i : Cache.Invalidation) : Glob.isMatch stem stem = true ∧
      Glob.isMatch (stem ++ i.pattern) stem = false :=
    (i.matches_meant_iff stem).mp (i.matches_meant_of_plain h)
  exact ⟨(hmatches .parameters).1, fun i => (hmatches i).2⟩

/-- A change that is made in the store, and then the calls of the cache. -/
theorem Change.comes_of_performs {ch : Change} {w : World} {inner drop : Action Unit}
    {x : Except Fault Unit} {s : Store} (hup : w.down = []) (hbare : inner.KeepsTo bare)
    (hinner : Performs inner w x s) (hdone : x.map (fun _ => Reply.done) = .ok .done)
    (hdrop : drop.Forgets b (ch.calls b)) :
    ∃ made w', (do (do inner; drop : Action Unit); pure Reply.done).performUnder b w =
      (.ok .done, made, w') ∧ ch.Comes b s w made w' := by
  obtain ⟨records, hperform⟩ := hinner
  obtain rfl : x = .ok () := by
    cases x with
    | ok _ => rfl
    | error f => cases hdone
  obtain ⟨made, hrun, hmade⟩ := Action.IsBare.performUnder (a := inner) hbare b w
  rw [hperform] at hrun
  obtain ⟨made', w', hrun', hforgets, hmade'⟩ := hdrop { w with store := s, records } hup
  refine ⟨_, w', performUnder_map (performUnder_bind_ok hrun hrun') fun _ => Reply.done,
    hforgets.store, fun r hr => ?_, hforgets.keeps⟩
  rw [List.mem_append, hmade' r hr]
  exact or_iff_right fun hmem => hmade r hmem hr

theorem Call.comes (call : Call) (ttl : Kind → Int) {ch : Change} (hchange : call.change? = some ch)
    {w : World} (hup : w.down = []) (hdone : (w.store.answer call).1 = .ok .done) (b : Breakdown) :
    ∃ made w', (call.on (.cached ttl)).performUnder b w = (.ok .done, made, w') ∧
      ch.Comes b (w.store.answer call).2 w made w' := by
  have hentry (k : Kind) (c : Code k) :
      (Repository.forgetEntry c).Forgets b ((Change.mk k c false).calls b) := by
    have hstays : ¬ (false = true ∧ k = .uom) := fun h => Bool.false_ne_true h.1
    rw [Change.calls, if_neg hstays, List.append_nil]
    exact Repository.forget_forgets _ _
  cases call with
  | create k e =>
    cases hchange
    exact Change.comes_of_performs hup (Repository.keepsTo_storedCreate id id)
      (Repository.performs_storedCreate w e) hdone (hentry k e.code)
  | update k e =>
    cases hchange
    exact Change.comes_of_performs hup (Repository.keepsTo_storedUpdate id)
      (Repository.performs_storedUpdate w e) hdone (hentry k e.code)
  | delete k c =>
    cases hchange
    refine Change.comes_of_performs hup (Repository.keepsTo_storedDelete id)
      (Repository.performs_storedDelete w c) hdone ((Repository.forget_forgets _ _).bind ?_)
    cases k with
    | uom => exact Repository.forgetMatching_forgets _
    | parameter => exact forgets_pure
  | find | list | contains => cases hchange

/-! ## What is left -/

namespace Change

variable {ch : Change}

theorem mem_calls {r : Request} : r ∈ ch.calls b ↔
    r = ch.ownCall ∨ (b ch.ownCall = none ∧ r = ch.listsCall) ∨
      (ch.ends = true ∧ ch.kind = .uom) ∧ r = sweepCall := by
  unfold calls
  split_ifs with hown hsweeps hsweeps <;> simp [hown, hsweeps]

/-- What a change touches is the entry itself, a list of its kind or, when a unit ends, kept of
parameters; each has its call. -/
private theorem dropper_cases {q : Query} (h : ch.Touches q) :
    (q.key = Filter.entryKey ch.code ∧ ch.dropper q = ch.ownCall) ∨
      ((∃ f, q = .list ch.kind f) ∧ ch.dropper q = ch.listsCall) ∨
        ch.Sweeps q.kind ∧ ch.dropper q = sweepCall := by
  have hswept (hsweeps : ch.Sweeps q.kind) : ch.dropper q = sweepCall := by
    obtain ⟨-, huom, hparameter⟩ := hsweeps
    refine if_neg fun hkind => ?_
    rw [huom, hparameter] at hkind
    cases hkind
  cases q with
  | entry j c =>
    refine h.imp (fun hkey => ⟨hkey, if_pos ?_⟩) fun hsweeps => Or.inr ⟨hsweeps, hswept hsweeps⟩
    refine Filter.kind_eq_of_prefix (Filter.keySpace_prefix_entryKey c) ?_
    rw [show Filter.entryKey c = Filter.entryKey ch.code from hkey]
    exact Filter.keySpace_prefix_entryKey ch.code
  | list j f =>
    refine Or.inr (h.imp (fun hkind => ?_) fun hsweeps => ⟨hsweeps, hswept hsweeps⟩)
    subst hkind
    exact ⟨⟨f, rfl⟩, if_pos rfl⟩

private theorem dropper_list (f : Filter ch.kind) : ch.dropper (.list ch.kind f) = ch.listsCall :=
  if_pos rfl

namespace Comes

variable {s : Store} {w w' : World} {made : List Request}

/-- When the own key cannot be dropped, dropping the lists is not tried. -/
theorem listsCall_not_made (h : ch.Comes b s w made w') (hown : b ch.ownCall ≠ none) :
    ch.listsCall ∉ made := by
  intro hmade
  have hcall := mem_calls.mp ((h.asked ch.listsCall trivial).mp hmade)
  rcases hcall with hsame | ⟨hsound, -⟩ | ⟨⟨-, huom⟩, hsame⟩
  · cases hsame
  · exact hown hsound
  · rw [listsCall, huom] at hsame
    exact absurd (Request.cacheDeleteMatching.inj hsame) (by decide)

/-- And so the lists stay. -/
theorem keeps_list (h : ch.Comes b s w made w') (hstem : Cache.Fits w.stem)
    (hown : b ch.ownCall ≠ none) {f : Filter ch.kind} (hf : w.Keeps (.list ch.kind f)) :
    w'.Keeps (.list ch.kind f) := by
  refine (h.keeps _).mpr ⟨hf, fun r hr hsound hdrops => ?_⟩
  rcases mem_calls.mp hr with rfl | ⟨hsound, -⟩ | ⟨⟨-, huom⟩, rfl⟩
  · exact hown hsound
  · exact hown hsound
  · have hkind : ch.kind = .parameter := (hstem.isMatch_iff .parameters _).mp hdrops
    rw [huom] at hkind
    cases hkind

/-- All that is left was left by the very calls that failed exactly if the own key could be
dropped, or no list of the kind was kept. -/
theorem leavesFailedOnly_iff (h : ch.Comes b s w made w') (hstem : Cache.Fits w.stem) :
    ch.LeavesFailedOnly b made w' ↔
      b ch.ownCall = none ∨ ∀ f : Filter ch.kind, ¬ w.Keeps (.list ch.kind f) := by
  constructor
  · intro hleaves
    refine or_iff_not_imp_left.mpr fun hown f hf => h.listsCall_not_made hown ?_
    rw [← dropper_list f]
    exact (hleaves (.list ch.kind f) (Or.inl rfl) (h.keeps_list hstem hown hf)).1
  · intro hgood q htouches hleft
    obtain ⟨hbefore, hstays⟩ := (h.keeps q).mp hleft
    -- A call that is made and drops the answer must have failed.
    have hfailed {r : Request} (hr : r ∈ ch.calls b) (hcall : r.IsCacheCall)
        (hdrops : r.Drops w.stem q) : r ∈ made ∧ b r ≠ none :=
      ⟨(h.asked r hcall).mpr hr, fun hsound => hstays r hr hsound hdrops⟩
    rcases dropper_cases htouches with ⟨hkey, hcall⟩ | ⟨⟨f, rfl⟩, hcall⟩ | ⟨hsweeps, hcall⟩ <;>
      rw [hcall]
    · exact hfailed (mem_calls.mpr (Or.inl rfl)) trivial hkey
    · have hown := hgood.resolve_right fun hnone => hnone f hbefore
      exact hfailed (mem_calls.mpr (Or.inr (Or.inl ⟨hown, rfl⟩))) trivial
        ((hstem.isMatch_iff (.lists ch.kind) _).mpr rfl)
    · obtain ⟨hends, huom, hparameter⟩ := hsweeps
      exact hfailed (mem_calls.mpr (Or.inr (Or.inr ⟨⟨hends, huom⟩, rfl⟩))) trivial
        ((hstem.isMatch_iff .parameters q).mpr hparameter)

end Comes

end Change

/-- A change that is made in the store succeeds, whichever calls of the cache fail after it, and
leaves in the cache what is dropped by no call that is made and does not fail. Behind a stem under
which the patterns match what they mean, what it should have dropped and did not was left by the
very calls that failed, exactly if the call for the own key does not fail or there is no list to be
left. -/
theorem Call.leaves_failed_only_iff (call : Call) (ttl : Kind → Int) {ch : Change}
    (hchange : call.change? = some ch) {w : World} (hup : w.down = [])
    (hdone : (w.store.answer call).1 = .ok .done) (b : Breakdown) :
    ∃ made w', (call.on (.cached ttl)).performUnder b w = (.ok .done, made, w') ∧
      ch.Comes b (w.store.answer call).2 w made w' ∧
      (Cache.Fits w.stem → (ch.LeavesFailedOnly b made w' ↔
        b ch.ownCall = none ∨ ∀ f : Filter ch.kind, ¬ w.Keeps (.list ch.kind f))) := by
  obtain ⟨made, w', hrun, hcomes⟩ := call.comes ttl hchange hup hdone b
  exact ⟨made, w', hrun, hcomes, hcomes.leavesFailedOnly_iff⟩

/-! ## A key that cannot be dropped -/

namespace Sample

/-- The kilogram is stored, and a page with it is kept in the cache. -/
def paged : World :=
  { stocked with cache := .memory {
    stem := "v1:"
    slots := [⟨"v1:" ++ (Query.list .uom { activity := () }).key, 61.0,
      (Record.ofPage (k := .uom) [kilogram "Kilogram"] 1).printAscii⟩] } }

/-- Single keys cannot be dropped, patterns can. -/
def keyless : Breakdown
  | .cacheDelete _ => some "down"
  | _ => none

/-- The kilogram gets another name, or is ended. -/
def ofKilogram (ends : Bool) : Change := ⟨.uom, (kilogram "").code, ends⟩

/-- A call through the cache while single keys cannot be dropped. -/
def whileKeyless (call : Call) : Except Fault Reply × List Request × World :=
  (call.on (.cached fun _ => 60)).performUnder keyless paged

theorem fits_paged : Cache.Fits paged.stem := Cache.fits_of_plain (Glob.isPlain_of_all rfl)

private theorem keeps_paged : paged.Keeps (.list .uom { activity := () }) :=
  ⟨_, List.mem_singleton_self _, rfl⟩

theorem keyless_ownCall (ends : Bool) : keyless (ofKilogram ends).ownCall ≠ none :=
  Option.some_ne_none _

end Sample

open Sample

/-- The kilogram is deleted while its own key cannot be dropped. -/
theorem Call.leaves_failed_only_iff_keyless :
    paged.down = [] ∧ (paged.store.answer (.delete .uom (kilogram "").code)).1 = .ok .done ∧
      ∃ made w', whileKeyless (.delete .uom (kilogram "").code) = (.ok .done, made, w') ∧
        (ofKilogram true).Comes keyless (paged.store.answer (.delete .uom (kilogram "").code)).2
          paged made w' ∧
        ((ofKilogram true).LeavesFailedOnly keyless made w' ↔
          keyless (ofKilogram true).ownCall = none ∨
            ∀ f : Filter .uom, ¬ paged.Keeps (.list .uom f)) := by
  obtain ⟨made, w', hrun, hcomes, hiff⟩ :=
    leaves_failed_only_iff (.delete .uom (kilogram "").code) (fun _ => 60) rfl (w := paged) rfl rfl
      keyless
  exact ⟨rfl, rfl, made, w', hrun, hcomes, hiff fits_paged⟩

/-- The kilogram gets another name while its own key cannot be dropped: the page with its old name
stays, and the call that would have dropped it is never made. -/
theorem Call.page_left_untried :
    ∃ made w', whileKeyless (.update .uom (kilogram "Kilo")) = (.ok .done, made, w') ∧
      w'.Keeps (.list .uom { activity := () }) ∧ (ofKilogram false).listsCall ∉ made ∧
        ¬ (ofKilogram false).LeavesFailedOnly keyless made w' := by
  obtain ⟨made, w', hrun, hcomes⟩ := Call.comes (.update .uom (kilogram "Kilo")) (fun _ => 60) rfl
    (w := paged) rfl rfl keyless
  have hleft := hcomes.keeps_list fits_paged (keyless_ownCall false) keeps_paged
  have hmade := hcomes.listsCall_not_made (keyless_ownCall false)
  refine ⟨made, w', hrun, hleft, hmade, fun hleaves => ?_⟩
  exact hmade (hleaves (.list .uom { activity := () }) (Or.inl rfl) hleft).1

end CostCatalog
