import CostCatalog.Proofs.Limiter.Buckets
import CostCatalog.Proofs.Limiter.Clients

/-!
# The rate of a limiter

In exact arithmetic, and while the clock does not go back, a bucket never holds less than nothing or
more than its capacity, and lets no more through in any stretch of requests than its capacity and
what is gained between the first and the last of them. So a limiter that is never swept lets no
client through more often in any window of time than the burst and the rate allow,
`Limiter.rate_bound`.
-/

namespace CostCatalog

variable {α : Type} [CommRing α] [LinearOrder α]

/-- The requests of a client that are let through in a window of time, counted among its own. -/
private theorem Limiter.admissions_eq (l : Limiter α) (us : List (Use α)) (client : String)
    (first last : α) :
    l.admissions us client first last = (requestsOf client (l.transcript us)).countP
      fun e => first ≤ e.1 && (e.1 ≤ last && e.2) := by
  rw [admissions, requestsOf, List.countP_map, List.countP_filter]
  apply List.countP_congr
  intro e _
  simp [and_comm, and_assoc, and_left_comm]

variable [IsStrictOrderedRing α]

/-- In a stretch of requests no more is let through than the capacity and what is gained from the
first to the last of them. -/
private theorem Bucket.Sound.stretch_le {b : Bucket α} {times : List α} (h : b.Sound)
    (hclock : (b.lastRefill :: times).Pairwise (· ≤ ·)) {i j : Nat} (hij : i ≤ j)
    (hj : j < times.length) :
    ((((b.transcript times).drop i).take (j + 1 - i)).countP (·.2) : α) ≤
      b.capacity + (times[j] - times[i]) * b.rate := by
  have hordered := List.pairwise_iff_getElem.mp (List.pairwise_cons.mp hclock).2
  have hle {m n : Nat} (hmn : m ≤ n) (hn : n < times.length) : times[m] ≤ times[n] := by
    rcases Nat.eq_or_lt_of_le hmn with rfl | hlt
    · exact le_refl _
    · exact hordered m n (by omega) hn hlt
  have hwindow : ∀ e ∈ ((b.transcript times).drop i).take (j + 1 - i),
      times[i] ≤ e.1 ∧ e.1 ≤ times[j] := by
    intro e he
    obtain ⟨n, hn, rfl⟩ := List.mem_iff_getElem.mp he
    simp only [List.length_take, List.length_drop, length_transcript] at hn
    rw [List.getElem_take, List.getElem_drop, fst_getElem_transcript b times _ (by omega)]
    exact ⟨hle (by omega) (by omega), hle (by omega) hj⟩
  have hstretch : (((b.transcript times).drop i).take (j + 1 - i)).countP (·.2) =
      (((b.transcript times).drop i).take (j + 1 - i)).countP
        fun e => times[i] ≤ e.1 && (e.1 ≤ times[j] && e.2) := by
    apply List.countP_congr
    intro e he
    simp [hwindow e he]
  have hsub : (((b.transcript times).drop i).take (j + 1 - i)).Sublist (b.transcript times) :=
    (List.take_sublist _ _).trans (List.drop_sublist _ _)
  rw [hstretch]
  exact (Nat.cast_le.mpr (hsub.countP_le ..)).trans (h.window_le hclock (hle hij hj))

/-- The rate of buckets and limiters. A bucket that starts full holds at least nothing and at most its
capacity after any requests, and from the `i`-th request to the `j`-th it lets no more through than
its capacity and what is gained between them; and a limiter that is not swept lets no client through
more often in a window of time than its burst and what is gained in the window. -/
theorem Limiter.rate_bound {burst perSecond : α} (hburst : 0 ≤ burst) (hrate : 0 ≤ perSecond) :
    (∀ (made : α) (times : List α), (made :: times).Pairwise (· ≤ ·) →
      (0 ≤ ((Bucket.full burst perSecond made).after times).tokens ∧
        ((Bucket.full burst perSecond made).after times).tokens ≤ burst) ∧
      ∀ (i j : Nat) (_ : i ≤ j) (_ : j < times.length),
        (((((Bucket.full burst perSecond made).transcript times).drop i).take (j + 1 - i)).countP
          (·.2) : α) ≤ burst + perSecond * (times[j] - times[i])) ∧
    ∀ us : List (Use α), (∀ u ∈ us, u.client? ≠ none) →
      (us.flatMap Use.readings).Pairwise (· ≤ ·) →
      ∀ (client : String) (first length : α), 0 ≤ length →
        (Limiter.admissions ⟨burst, perSecond, []⟩ us client first (first + length) : α) ≤
          burst + perSecond * length := by
  constructor
  · intro made times hclock
    have hsound := Bucket.sound_full hburst hrate made
    obtain ⟨hafter, hcapacity⟩ := hsound.after hclock
    refine ⟨⟨hafter.tokens_nonneg, hafter.tokens_le.trans_eq hcapacity⟩, ?_⟩
    intro i j hij hj
    rw [mul_comm]
    exact hsound.stretch_le hclock hij hj
  · intro us hrequests hclock client first length hlength
    have hnew : (⟨burst, perSecond, []⟩ : Limiter α).find? client = none := rfl
    obtain ⟨made, hclock', hown⟩ := transcript_of_new hrequests hclock hnew
    rw [admissions_eq, hown]
    have hwindow := (Bucket.sound_full hburst hrate made).window_le hclock'
      (le_add_of_nonneg_right hlength : first ≤ first + length)
    rwa [add_sub_cancel_left, mul_comm] at hwindow

/-- A burst of two and one a second. In a window of one second a client gets three requests through,
out of four, and that is as many as there may be. -/
def Limiter.busySecond : List (Use Int) :=
  [.allow "ada" 0 0, .check "bob" 0 0, .allow "ada" 0 0, .check "ada" 0 0, .allow "ada" 1 1]

theorem Limiter.rate_bound_busySecond :
    (Limiter.admissions ⟨2, 1, []⟩ busySecond "ada" 0 (0 + 1) : Int) = 2 + 1 * 1 ∧
      (Limiter.admissions ⟨2, 1, []⟩ busySecond "ada" 0 (0 + 1) : Int) ≤ 2 + 1 * 1 :=
  ⟨by decide, (rate_bound (by decide) (by decide)).2 busySecond (by decide) (by decide) "ada" 0 1
    (by decide)⟩

end CostCatalog
