import CostCatalog.Proofs.Limiter.Buckets

/-!
# Refusals cost nothing

A refused request still moves the time of the bucket and writes down the level it found. In exact
arithmetic that makes no difference to any later request, because the level at a later time is the
same whether the gain up to it is capped once or twice, `refilled_take_of_refused`. So a run is the
same for all its other requests when some refused ones are left out, `refusals_free`; nothing is
asked of the capacity or of the level at the start.
-/

namespace CostCatalog.Bucket

/-! ## Runs with some requests left out -/

/-- A request to a bucket: its time, whether it is let through, and the bucket after it. -/
structure Visit (α : Type) where
  now : α
  admitted : Bool
  left : Bucket α
deriving DecidableEq, Repr

/-- Some refused requests of a run are left out. -/
inductive Thinned {α : Type} : List (Visit α) → List (Visit α) → Prop
  | nil : Thinned [] []
  | keep (v : Visit α) {kept all : List (Visit α)} :
    Thinned kept all → Thinned (v :: kept) (v :: all)
  | leaveOut {v : Visit α} {kept all : List (Visit α)} :
    v.admitted = false → Thinned kept all → Thinned kept (v :: all)

variable {α : Type}

/-- The requests to a bucket at some times. -/
def visits [Add α] [Sub α] [Mul α] [OfNat α 1] [LT α] [DecidableLT α] [LE α] [DecidableLE α] :
    Bucket α → List α → List (Visit α)
  | _, [] => []
  | b, now :: times => ⟨now, (b.take now).1, (b.take now).2⟩ :: visits (b.take now).2 times

/-! ## One refused request -/

variable [CommRing α] [LinearOrder α] [IsStrictOrderedRing α] {b b' : Bucket α} {now later : α}

/-- A refused request leaves the level of every later time as it is. -/
private theorem refilled_take_of_refused (hrate : 0 ≤ b.rate) (hrefused : (b.take now).1 = false)
    (hlater : now ≤ later) : (b.take now).2.refilled later = b.refilled later := by
  have hlow : ¬ 1 ≤ b.refilled now := by simpa [take_fst] using hrefused
  have hgain : 0 ≤ (later - now) * b.rate := mul_nonneg (sub_nonneg.mpr hlater) hrate
  have hsplit : b.tokens + (later - b.lastRefill) * b.rate =
      b.tokens + (now - b.lastRefill) * b.rate + (later - now) * b.rate := by ring
  have hleft : (b.take now).2.refilled later =
      min (b.refilled now + (later - now) * b.rate) b.capacity := by
    rw [refilled_eq_min, take_snd, if_neg hlow, sub_zero]
  calc (b.take now).2.refilled later
      = min (b.refilled now + (later - now) * b.rate) b.capacity := hleft
    _ = min (min (b.tokens + (later - b.lastRefill) * b.rate)
          (b.capacity + (later - now) * b.rate)) b.capacity := by
        rw [refilled_eq_min b now, ← min_add_add_right, ← hsplit]
    _ = b.refilled later := by
        rw [min_assoc, min_eq_right (le_add_of_nonneg_right hgain), refilled_eq_min]

/-- A later request finds and leaves the same, with a refused request before it or without. -/
theorem take_take_of_refused (hrate : 0 ≤ b.rate) (hrefused : (b.take now).1 = false)
    (hlater : now ≤ later) : (b.take now).2.take later = b.take later := by
  have hlevel := refilled_take_of_refused hrate hrefused hlater
  apply Prod.ext
  · rw [take_fst, take_fst, hlevel]
  · rw [take_snd, take_snd b later, hlevel]
    simp

/-! ## Runs -/

/-- A bucket at which every request from a time on finds and leaves what it does at another serves
the requests that are kept of a run of the other. -/
private theorem visits_of_thinned {times : List α} {kept : List (Visit α)} (hrate : 0 ≤ b.rate)
    (hclock : (now :: times).Pairwise (· ≤ ·))
    (halike : ∀ later, now ≤ later → b'.take later = b.take later)
    (h : Thinned kept (b.visits times)) : b'.visits (kept.map Visit.now) = kept := by
  induction times generalizing b b' now kept with
  | nil =>
    cases h
    rfl
  | cons t times ih =>
    rw [List.pairwise_cons] at hclock
    have ht : now ≤ t := hclock.1 t (List.mem_cons_self ..)
    have hrate' : 0 ≤ (b.take t).2.rate := by simpa using hrate
    cases h with
    | keep v hrest =>
      have hnext := ih hrate' hclock.2 (fun _ _ => rfl) hrest
      rw [List.map_cons, visits, halike t ht, hnext]
    | leaveOut hrefused hrest =>
      -- The bucket that is not asked stays behind, and sees every later request alike.
      refine ih hrate' hclock.2 (fun later hlater => ?_) hrest
      rw [halike later (ht.trans hlater), take_take_of_refused hrate hrefused hlater]

/-- After any number of refused requests, a later one finds and leaves what it would have without
them. -/
private theorem take_after_of_refused {times : List α} (hrate : 0 ≤ b.rate)
    (hrefused : ∀ v ∈ b.visits times, v.admitted = false)
    (hclock : (times ++ [later]).Pairwise (· ≤ ·)) :
    (b.after times).take later = b.take later := by
  induction times generalizing b with
  | nil => rfl
  | cons t times ih =>
    rw [List.cons_append, List.pairwise_cons] at hclock
    obtain ⟨hfirst, hrest⟩ := List.forall_mem_cons.mp hrefused
    rw [after, ih (by simpa using hrate) hrest hclock.2]
    exact take_take_of_refused hrate hfirst (hclock.1 later (by simp))

/-- Refused requests are free. Whichever of the refused requests of a run are left out, every
request that is kept is decided as before and leaves the bucket as before; and a bucket that has
refused any number of requests serves the next one as if they had not been made. -/
theorem refusals_free (hrate : 0 ≤ b.rate) {times : List α} (hclock : times.Pairwise (· ≤ ·)) :
    (∀ kept, Thinned kept (b.visits times) → b.visits (kept.map Visit.now) = kept) ∧
      ∀ later, (∀ t ∈ times, t ≤ later) → (∀ v ∈ b.visits times, v.admitted = false) →
        (b.after times).take later = b.take later := by
  constructor
  · intro kept h
    cases times with
    | nil =>
      cases h
      rfl
    | cons first times =>
      exact visits_of_thinned hrate (pairwise_le_cons_self hclock) (fun _ _ => rfl) h
  · intro later hlater hrefused
    refine take_after_of_refused hrate hrefused ?_
    simpa [List.pairwise_append] using ⟨hclock, hlater⟩

/-- Two tokens, one more a second: of four requests at once the last two are refused, and a second
later there is a token again. -/
def hammered : List (Visit Int) := (full 2 1 0 : Bucket Int).visits [0, 0, 0, 0, 1]

theorem refusals_free_hammered :
    hammered.map Visit.admitted = [true, true, false, false, true] ∧
      (full 2 1 0 : Bucket Int).visits [0, 0, 0, 1] = hammered.eraseIdx 2 := by
  have hrate : (0 : Int) ≤ (full 2 1 0).rate := by decide
  have hclock : [0, 0, 0, 0, (1 : Int)].Pairwise (· ≤ ·) := by decide
  refine ⟨by decide, (refusals_free hrate hclock).1 (hammered.eraseIdx 2) ?_⟩
  exact .keep _ (.keep _ (.leaveOut rfl (.keep _ (.keep _ .nil))))

end CostCatalog.Bucket
