import CostCatalog.Limiter.Uses
import Mathlib.Algebra.Order.Ring.Defs
import Mathlib.Tactic.Linarith
import Mathlib.Tactic.Ring

/-!
# What a bucket lets through

The laws of one bucket in exact arithmetic, over any ordered ring. A bucket holds at least nothing
and at most its capacity, `Sound`, and a request that is not before the last one keeps this. What is
let through is paid for out of the level of the bucket and what it gains, and so no window of time
sees more than the capacity and what is gained in it, `Sound.window_le`.
-/

namespace CostCatalog.Bucket

variable {α : Type} [CommRing α] [LinearOrder α] {b : Bucket α} {now : α}

/-- A bucket that never loses tokens by itself holds at least nothing and at most its capacity. -/
structure Sound (b : Bucket α) : Prop where
  rate_nonneg : 0 ≤ b.rate
  tokens_nonneg : 0 ≤ b.tokens
  tokens_le : b.tokens ≤ b.capacity

theorem sound_full {capacity rate : α} (hcapacity : 0 ≤ capacity) (hrate : 0 ≤ rate) (made : α) :
    (full capacity rate made).Sound :=
  ⟨hrate, hcapacity, le_refl capacity⟩

/-! ## Levels and requests -/

theorem refilled_eq_min (b : Bucket α) (now : α) :
    b.refilled now = min (b.tokens + (now - b.lastRefill) * b.rate) b.capacity := by
  unfold refilled
  by_cases h : b.tokens + (now - b.lastRefill) * b.rate < b.capacity
  · simp [h, min_eq_left h.le]
  · simp [h, min_eq_right (not_lt.mp h)]

theorem refilled_le_capacity (b : Bucket α) (now : α) : b.refilled now ≤ b.capacity := by
  rw [refilled_eq_min]
  exact min_le_right _ _

/-- A bucket is full once it has gained what was missing. -/
theorem refilled_eq_capacity (h : b.capacity ≤ b.tokens + (now - b.lastRefill) * b.rate) :
    b.refilled now = b.capacity := by
  rw [refilled_eq_min, min_eq_right h]

/-- A request is let through when the level has come to one. -/
theorem take_fst (b : Bucket α) (now : α) : (b.take now).1 = decide (1 ≤ b.refilled now) := by
  unfold take
  by_cases h : 1 ≤ b.refilled now <;> simp [h]

/-- A request takes one token off the level if it is let through, and nothing if it is not. -/
theorem take_snd (b : Bucket α) (now : α) :
    (b.take now).2 = { b with
      tokens := b.refilled now - if 1 ≤ b.refilled now then 1 else 0
      lastRefill := now } := by
  unfold take
  by_cases h : 1 ≤ b.refilled now <;> simp [h]

@[simp] theorem capacity_take (b : Bucket α) (now : α) : (b.take now).2.capacity = b.capacity := by
  rw [take_snd]

@[simp] theorem rate_take (b : Bucket α) (now : α) : (b.take now).2.rate = b.rate := by
  rw [take_snd]

@[simp] theorem lastRefill_take (b : Bucket α) (now : α) : (b.take now).2.lastRefill = now := by
  rw [take_snd]

omit [CommRing α] in
/-- A clock may be read twice in a row. -/
theorem pairwise_le_cons_self {times : List α} (h : (now :: times).Pairwise (· ≤ ·)) :
    (now :: now :: times).Pairwise (· ≤ ·) := by
  refine List.pairwise_cons.mpr ⟨fun later hlater => ?_, h⟩
  rcases List.mem_cons.mp hlater with rfl | hlater
  · exact le_refl later
  · exact (List.pairwise_cons.mp h).1 later hlater

theorem map_fst_transcript (b : Bucket α) (times : List α) :
    (b.transcript times).map Prod.fst = times := by
  induction times generalizing b with
  | nil => rfl
  | cons t times ih => simp [transcript, ih]

theorem length_transcript (b : Bucket α) (times : List α) :
    (b.transcript times).length = times.length := by
  rw [← List.length_map Prod.fst, map_fst_transcript]

theorem fst_getElem_transcript (b : Bucket α) (times : List α) {n : Nat}
    (h : n < (b.transcript times).length) (hn : n < times.length) :
    (b.transcript times)[n].1 = times[n] := by
  have hsame := List.getElem_of_eq (map_fst_transcript b times) (i := n) (by simpa using h)
  rwa [List.getElem_map] at hsame

/-- No request of a run is before the first one. -/
theorem le_of_mem_transcript {times : List α} (hclock : (now :: times).Pairwise (· ≤ ·))
    {e : α × Bool} (he : e ∈ b.transcript (now :: times)) : now ≤ e.1 := by
  have hmem : e.1 ∈ now :: times := by
    rw [← map_fst_transcript b (now :: times)]
    exact List.mem_map_of_mem he
  rcases List.mem_cons.mp hmem with heq | hmem
  · exact heq.ge
  · exact (List.pairwise_cons.mp hclock).1 e.1 hmem

/-- Nothing is let through up to a time before the first request. -/
theorem countP_transcript_eq_zero {times : List α} {last : α}
    (hclock : (now :: times).Pairwise (· ≤ ·)) (h : last < now) :
    (b.transcript (now :: times)).countP (fun e => e.1 ≤ last && e.2) = 0 := by
  rw [List.countP_eq_zero]
  intro e he
  have hlater : ¬ e.1 ≤ last := not_le.mpr (h.trans_le (le_of_mem_transcript hclock he))
  simp [hlater]

/-! ## Exact arithmetic -/

variable [IsStrictOrderedRing α]

theorem Sound.gain_nonneg (h : b.Sound) {later : α} (hlater : now ≤ later) :
    0 ≤ (later - now) * b.rate :=
  mul_nonneg (sub_nonneg.mpr hlater) h.rate_nonneg

theorem Sound.refilled_nonneg (h : b.Sound) (hnow : b.lastRefill ≤ now) : 0 ≤ b.refilled now := by
  rw [refilled_eq_min]
  exact le_min (add_nonneg h.tokens_nonneg (h.gain_nonneg hnow)) (h.tokens_nonneg.trans h.tokens_le)

/-- Between two times the level rises by no more than what is gained between them. -/
theorem Sound.refilled_later (h : b.Sound) {later : α} (hlater : now ≤ later) :
    b.refilled later ≤ b.refilled now + (later - now) * b.rate := by
  have hgain := h.gain_nonneg hlater
  rw [refilled_eq_min b later, refilled_eq_min b now, ← min_add_add_right]
  apply min_le_min
  · have : b.tokens + (later - b.lastRefill) * b.rate =
        b.tokens + (now - b.lastRefill) * b.rate + (later - now) * b.rate := by ring
    exact this.le
  · exact le_add_of_nonneg_right hgain

/-- A bucket that has just been made is full for as long as the clock does not go back. -/
theorem refilled_full {capacity rate made : α} (hrate : 0 ≤ rate) (hmade : made ≤ now) :
    (full capacity rate made).refilled now = capacity := by
  apply refilled_eq_capacity
  exact le_add_of_nonneg_right (mul_nonneg (sub_nonneg.mpr hmade) hrate)

theorem Sound.take (h : b.Sound) (hnow : b.lastRefill ≤ now) : (b.take now).2.Sound := by
  have hnonneg := h.refilled_nonneg hnow
  have hle := refilled_le_capacity b now
  rw [take_snd]
  refine ⟨h.rate_nonneg, ?_, ?_⟩
  · show 0 ≤ b.refilled now - if 1 ≤ b.refilled now then 1 else 0
    split <;> linarith
  · show (b.refilled now - if 1 ≤ b.refilled now then 1 else 0) ≤ b.capacity
    split <;> linarith

/-- The level right after a request. -/
private theorem refilled_take (b : Bucket α) (now : α) :
    (b.take now).2.refilled now = b.refilled now - if 1 ≤ b.refilled now then 1 else 0 := by
  have hle := refilled_le_capacity b now
  rw [refilled_eq_min, take_snd]
  simp only [sub_self, zero_mul, add_zero]
  apply min_eq_left
  split <;> linarith

/-! ## Runs of requests -/

/-- After any run a bucket is sound and has the capacity that it had. -/
theorem Sound.after {times : List α} (h : b.Sound)
    (hclock : (b.lastRefill :: times).Pairwise (· ≤ ·)) :
    (b.after times).Sound ∧ (b.after times).capacity = b.capacity := by
  induction times generalizing b with
  | nil => exact ⟨h, rfl⟩
  | cons t times ih =>
    rw [List.pairwise_cons] at hclock
    have ht : b.lastRefill ≤ t := hclock.1 t (List.mem_cons_self ..)
    simpa [Bucket.after] using ih (h.take ht) (by simpa using hclock.2)

/-- What is let through up to a time is paid for by the level at the start and by what is gained. The
level is the potential of the run: a request that is let through lowers it by one. -/
theorem Sound.countP_le_level {times : List α} (h : b.Sound) {first last : α}
    (hfirst : b.lastRefill ≤ first) (hclock : (first :: times).Pairwise (· ≤ ·))
    (hlast : first ≤ last) :
    ((b.transcript times).countP (fun e => e.1 ≤ last && e.2) : α) ≤
      b.refilled first + (last - first) * b.rate := by
  have hlevel := h.refilled_nonneg hfirst
  have hgain := h.gain_nonneg hlast
  induction times generalizing b first with
  | nil =>
    simp only [transcript, List.countP_nil, Nat.cast_zero]
    linarith
  | cons t times ih =>
    rw [List.pairwise_cons] at hclock
    have ht : first ≤ t := hclock.1 t (List.mem_cons_self ..)
    by_cases hin : t ≤ last
    · have hsound := h.take (hfirst.trans ht)
      have hrest := ih hsound (lastRefill_take b t).le hclock.2 hin
        (hsound.refilled_nonneg (lastRefill_take b t).le) (hsound.gain_nonneg hin)
      rw [refilled_take, rate_take] at hrest
      have hrise := h.refilled_later ht
      simp only [transcript, List.countP_cons, take_fst, hin, decide_true, Bool.true_and,
        decide_eq_true_eq, Nat.cast_add, Nat.cast_ite, Nat.cast_one, Nat.cast_zero]
      linarith
    · rw [countP_transcript_eq_zero hclock.2 (not_le.mp hin), Nat.cast_zero]
      linarith

/-- In a window of time no more is let through than the capacity and what is gained in it. -/
theorem Sound.window_le {times : List α} (h : b.Sound) {first last : α}
    (hclock : (b.lastRefill :: times).Pairwise (· ≤ ·)) (hlast : first ≤ last) :
    ((b.transcript times).countP (fun e => first ≤ e.1 && (e.1 ≤ last && e.2)) : α) ≤
      b.capacity + (last - first) * b.rate := by
  have hgain := h.gain_nonneg hlast
  have hcapacity := h.tokens_nonneg.trans h.tokens_le
  induction times generalizing b with
  | nil =>
    simp only [transcript, List.countP_nil, Nat.cast_zero]
    linarith
  | cons t times ih =>
    rw [List.pairwise_cons] at hclock
    have ht : b.lastRefill ≤ t := hclock.1 t (List.mem_cons_self ..)
    by_cases hbefore : t < first
    · have hrest := ih (h.take ht) (by simpa using hclock.2) (by simpa using hgain)
        (by simpa using hcapacity)
      simpa [transcript, not_le.mpr hbefore] using hrest
    · -- From here on every request is in the window or after it.
      have hsame : (b.transcript (t :: times)).countP (fun e => first ≤ e.1 && (e.1 ≤ last && e.2)) =
          (b.transcript (t :: times)).countP (fun e => e.1 ≤ last && e.2) := by
        apply List.countP_congr
        intro e he
        simp [(not_lt.mp hbefore).trans (le_of_mem_transcript hclock.2 he)]
      rw [hsame]
      by_cases hin : t ≤ last
      · have hpaid := h.countP_le_level ht (pairwise_le_cons_self hclock.2) hin
        have hlevel := refilled_le_capacity b t
        have hshorter : (last - t) * b.rate ≤ (last - first) * b.rate :=
          mul_le_mul_of_nonneg_right (by linarith [not_lt.mp hbefore]) h.rate_nonneg
        linarith
      · rw [countP_transcript_eq_zero hclock.2 (not_le.mp hin), Nat.cast_zero]
        linarith

end CostCatalog.Bucket
