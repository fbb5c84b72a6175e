import CostCatalog.Proofs.Limiter.Buckets
import CostCatalog.Proofs.Limiter.Clients
import CostCatalog.Settings

/-!
# Sweeps go unnoticed

In exact arithmetic a request sees of a limiter only the level of its client, and the level of a
client without a bucket is the burst. A bucket that is dropped for being idle has had the time to
fill, so dropping it changes no level from then on, `level_cleanup`. Two limiters with the same
levels, `Alike`, tell every request the same and stay so; and a run with sweeps tells its requests
what it tells them without, `sweeps_unnoticed`.
-/

namespace CostCatalog.Limiter

variable {α : Type} [CommRing α] [LinearOrder α] {l m : Limiter α} {client : String} {first now : α}

/-! ## Levels -/

/-- The tokens that a request of a client would find. -/
def level (l : Limiter α) (client : String) (now : α) : α :=
  ((l.find? client).map (·.refilled now)).getD l.burst

/-- A limiter is kept well up to a time: a client has one bucket, of the size and rate of the limiter,
which is sound and was last touched by then. -/
structure Kept (l : Limiter α) (now : α) : Prop where
  burst_nonneg : 0 ≤ l.burst
  perSecond_nonneg : 0 ≤ l.perSecond
  clients_nodup : (l.buckets.map Prod.fst).Nodup
  sound : ∀ client b, l.find? client = some b →
    b.Sound ∧ b.capacity = l.burst ∧ b.rate = l.perSecond ∧ b.lastRefill ≤ now

/-- Two limiters are alike from a time on when they are of one size and rate and have the same levels
from then on. -/
structure Alike (l m : Limiter α) (now : α) : Prop where
  burst : m.burst = l.burst
  perSecond : m.perSecond = l.perSecond
  level : ∀ client later, now ≤ later → m.level client later = l.level client later

theorem Kept.mono (h : l.Kept first) (hnow : first ≤ now) : l.Kept now :=
  ⟨h.burst_nonneg, h.perSecond_nonneg, h.clients_nodup, fun client b hb =>
    have ⟨hsound, hcapacity, hrate, hlast⟩ := h.sound client b hb
    ⟨hsound, hcapacity, hrate, hlast.trans hnow⟩⟩

theorem Alike.mono (h : l.Alike m first) (hnow : first ≤ now) : l.Alike m now :=
  ⟨h.burst, h.perSecond, fun client later hlater => h.level client later (hnow.trans hlater)⟩

theorem Alike.refl (l : Limiter α) (now : α) : l.Alike l now :=
  ⟨rfl, rfl, fun _ _ _ => rfl⟩

private theorem kept_new {burst perSecond : α} (hburst : 0 ≤ burst) (hrate : 0 ≤ perSecond)
    (now : α) : Kept ⟨burst, perSecond, []⟩ now :=
  ⟨hburst, hrate, List.nodup_nil, fun _ _ hb => nomatch hb⟩

/-! ## What a request finds and leaves -/

/-- The bucket that a request takes from is sound, of the size and rate of the limiter, and was last
touched before. -/
theorem Kept.bucketFor (h : l.Kept first) (client : String) {made : α} (hmade : first ≤ made) :
    (l.bucketFor client made).Sound ∧ (l.bucketFor client made).lastRefill ≤ made := by
  rw [Limiter.bucketFor]
  cases hfind : l.find? client with
  | none => exact ⟨Bucket.sound_full h.burst_nonneg h.perSecond_nonneg made, le_refl made⟩
  | some b =>
    obtain ⟨hsound, -, -, hlast⟩ := h.sound client b hfind
    exact ⟨hsound, hlast.trans hmade⟩

variable [IsStrictOrderedRing α]

/-- The bucket that a client at a level has after a request. -/
def bucketAt (l : Limiter α) (level now : α) : Bucket α :=
  ⟨l.burst, l.perSecond, level - if 1 ≤ level then 1 else 0, now⟩

/-- A request is told by the level of its client alone, and leaves a bucket that depends on nothing
else either. -/
theorem Kept.take_bucketFor (h : l.Kept first) (client : String) {made : α} (hmade : made ≤ now) :
    (l.bucketFor client made).take now =
      (decide (1 ≤ l.level client now), l.bucketAt (l.level client now) now) := by
  apply Prod.ext
  · rw [Bucket.take_fst, Limiter.bucketFor, level]
    cases hfind : l.find? client with
    | none => simp [Bucket.refilled_full h.perSecond_nonneg hmade]
    | some b => rfl
  · rw [Bucket.take_snd, Limiter.bucketFor, level, bucketAt]
    cases hfind : l.find? client with
    | none =>
      simp only [Option.getD_none, Option.map_none, Bucket.refilled_full h.perSecond_nonneg hmade]
      rfl
    | some b =>
      obtain ⟨-, hcapacity, hrate, -⟩ := h.sound client b hfind
      simp [hcapacity, hrate]

/-- A bucket that is dropped would have been full at any later request. -/
theorem Kept.level_cleanup (h : l.Kept first) {maxIdle later : α}
    (hidle : l.burst ≤ l.perSecond * maxIdle) (hlater : now ≤ later) (client : String) :
    (l.cleanup maxIdle now).2.level client later = l.level client later := by
  rw [level, level, find?_cleanup h.clients_nodup]
  cases hfind : l.find? client with
  | none => rfl
  | some b =>
    obtain ⟨hsound, hcapacity, hrate, -⟩ := h.sound client b hfind
    by_cases hstale : b.lastRefill < now - maxIdle
    · -- Idle for longer than `maxIdle`, it has gained the whole burst, whatever it held.
      have hfull : b.refilled later = b.capacity := by
        apply Bucket.refilled_eq_capacity
        have hlong : maxIdle * l.perSecond ≤ (later - b.lastRefill) * l.perSecond :=
          mul_le_mul_of_nonneg_right (by linarith) h.perSecond_nonneg
        rw [hcapacity, hrate]
        linarith [hsound.tokens_nonneg, mul_comm l.perSecond maxIdle]
      simp [Option.filter_some, isStale, hstale, hfull, hcapacity, cleanup]
    · simp [Option.filter_some, isStale, hstale]

/-! ## One use -/

/-- A use keeps a limiter well. -/
theorem Use.kept_on {u : Use α} (h : l.Kept first) (hclock : (first :: u.readings).Pairwise (· ≤ ·)) :
    (u.on l).2.Kept u.now := by
  cases hclient : u.client? with
  | none =>
    cases u with
    | cleanup maxIdle now =>
      have hnow : first ≤ now := (List.pairwise_cons.mp hclock).1 now (List.mem_cons_self ..)
      refine ⟨h.burst_nonneg, h.perSecond_nonneg, Use.nodup_clients_on h.clients_nodup,
        fun client b hb => ?_⟩
      rw [Use.on, find?_cleanup h.clients_nodup] at hb
      exact (h.mono hnow).sound client b (Option.eq_some_of_filter_eq_some hb)
    | _ => cases hclient
  | some client =>
    obtain ⟨made, hreadings, hon⟩ := u.on_request hclient
    obtain ⟨⟨hmade, -⟩, hnow⟩ : (first ≤ made ∧ first ≤ u.now) ∧ made ≤ u.now := by
      simpa [hreadings] using hclock
    rw [hon]
    refine ⟨by simpa using h.burst_nonneg, by simpa using h.perSecond_nonneg,
      nodup_clients_put h.clients_nodup client _, fun other b hb => ?_⟩
    rw [burst_put, perSecond_put]
    by_cases hother : other = client
    · subst hother
      rw [find?_put_self, Option.some.injEq] at hb
      obtain ⟨hsound, hlast⟩ := h.bucketFor other hmade
      subst hb
      refine ⟨hsound.take (hlast.trans hnow), ?_⟩
      rw [h.take_bucketFor other hnow]
      exact ⟨rfl, rfl, le_refl u.now⟩
    · rw [find?_put_of_ne hother] at hb
      exact (h.mono (hmade.trans hnow)).sound other b hb

/-- Limiters that are alike tell a request the same, and are alike after it. -/
theorem Alike.on_request {u : Use α} (h : l.Alike m first) (hl : l.Kept first) (hm : m.Kept first)
    (hclock : (first :: u.readings).Pairwise (· ≤ ·)) (hclient : u.client? = some client) :
    (u.on m).1 = (u.on l).1 ∧ (u.on l).2.Alike (u.on m).2 u.now := by
  obtain ⟨made, hreadings, hon⟩ := u.on_request hclient
  obtain ⟨⟨-, hfirst⟩, hnow⟩ : (first ≤ made ∧ first ≤ u.now) ∧ made ≤ u.now := by
    simpa [hreadings] using hclock
  have hsame : (m.bucketFor client made).take u.now = (l.bucketFor client made).take u.now := by
    rw [hm.take_bucketFor client hnow, hl.take_bucketFor client hnow, h.level client u.now hfirst,
      bucketAt, bucketAt, h.burst, h.perSecond]
  rw [hon, hon, hsame]
  refine ⟨rfl, by simp [h.burst], by simp [h.perSecond], fun other later hlater => ?_⟩
  by_cases hother : other = client
  · subst hother
    rw [Limiter.level, Limiter.level, find?_put_self, find?_put_self]
    rfl
  · have hkept := h.level other later (hfirst.trans hlater)
    simpa [Limiter.level, find?_put_of_ne hother] using hkept

/-- A sweep of a limiter leaves it alike to what it was alike to. -/
theorem Alike.on_cleanup (h : l.Alike m first) (hm : m.Kept first) {maxIdle : α}
    (hidle : m.burst ≤ m.perSecond * maxIdle) (hnow : first ≤ now) :
    l.Alike ((Use.cleanup maxIdle now).on m).2 now :=
  ⟨h.burst, h.perSecond, fun client later hlater =>
    (hm.level_cleanup hidle hlater client).trans (h.level client later (hnow.trans hlater))⟩

/-! ## Runs -/

/-- Of two limiters that are alike, one may be swept and the other not: the requests of a run are told
the same. -/
theorem Alike.transcript_eq {us : List (Use α)} (h : l.Alike m first) (hl : l.Kept first)
    (hm : m.Kept first) (hclock : (first :: us.flatMap Use.readings).Pairwise (· ≤ ·))
    (hidle : ∀ maxIdle now, .cleanup maxIdle now ∈ us → l.burst ≤ l.perSecond * maxIdle) :
    (m.transcript us).filter (fun e => e.1.client?.isSome) =
      l.transcript (us.filter fun u => u.client?.isSome) := by
  induction us generalizing l m first with
  | nil => rfl
  | cons u us ih =>
    obtain ⟨huse, hrest⟩ := Use.pairwise_readings hclock
    have hidle' := fun maxIdle now hmem => hidle maxIdle now (List.mem_cons_of_mem u hmem)
    cases hclient : u.client? with
    | none =>
      cases u with
      | cleanup maxIdle now =>
        -- Only the one limiter makes this step; the other waits.
        have hnow : first ≤ now := (List.pairwise_cons.mp huse).1 now (List.mem_cons_self ..)
        have hslack : m.burst ≤ m.perSecond * maxIdle := by
          rw [h.burst, h.perSecond]
          exact hidle maxIdle now (List.mem_cons_self ..)
        have hnext := ih (h.on_cleanup hm hslack hnow) (hl.mono hnow) (Use.kept_on hm huse) hrest hidle'
        simpa [transcript, hclient] using hnext
      | _ => cases hclient
    | some client =>
      obtain ⟨hsame, halike⟩ := h.on_request hl hm huse hclient
      have hl' := Use.kept_on hl huse
      have hidle'' : ∀ maxIdle now, .cleanup maxIdle now ∈ us →
          (u.on l).2.burst ≤ (u.on l).2.perSecond * maxIdle := by
        obtain ⟨made, -, hon⟩ := u.on_request hclient
        simpa [hon] using hidle'
      have hnext := ih halike hl' (Use.kept_on hm huse) hrest hidle''
      simpa [transcript, hclient, hsame] using hnext

/-- Sweeps go unnoticed. A run of a limiter tells each of its requests what it tells them with the
sweeps left out, if a bucket fills within the time after which it is dropped; with the settings that
are not stated it does. -/
theorem sweeps_unnoticed {burst perSecond : α} (hburst : 0 ≤ burst) (hrate : 0 ≤ perSecond)
    (us : List (Use α)) (hclock : (us.flatMap Use.readings).Pairwise (· ≤ ·))
    (hidle : ∀ maxIdle now, .cleanup maxIdle now ∈ us → burst ≤ perSecond * maxIdle) :
    (transcript ⟨burst, perSecond, []⟩ us).filter (fun e => e.1.client?.isSome) =
        transcript ⟨burst, perSecond, []⟩ (us.filter fun u => u.client?.isSome) ∧
      ∃ rate idle, Binary64.toInt? ({} : Settings).rateLimitPerSecond = some rate ∧
        Binary64.toInt? ({} : Settings).rateLimitMaxIdleSeconds = some idle ∧
        0 ≤ ({} : Settings).rateLimitBurst ∧ 0 ≤ rate ∧ ({} : Settings).rateLimitBurst ≤ rate * idle := by
  constructor
  · obtain ⟨first, hfirst⟩ : ∃ first, (first :: us.flatMap Use.readings).Pairwise (· ≤ ·) := by
      cases hreadings : us.flatMap Use.readings with
      | nil => exact ⟨0, List.pairwise_singleton ..⟩
      | cons first rest => exact ⟨first, Bucket.pairwise_le_cons_self (hreadings ▸ hclock)⟩
    have hkept := kept_new hburst hrate first
    exact (Alike.refl _ first).transcript_eq hkept hkept hfirst hidle
  · exact ⟨50, 300, by decide +kernel, by decide +kernel, by decide, by decide, by decide⟩

/-- A burst of two, one a second, and what is idle for more than two seconds dropped: the bucket of a
client that was refused is dropped, and made anew when the client comes back. -/
def pause : List (Use Int) :=
  [.allow "ada" 0 0, .check "ada" 0 0, .check "ada" 0 0, .cleanup 2 3, .check "ada" 3 4,
    .cleanup 2 4, .allow "ada" 4 4, .allow "ada" 4 4]

theorem sweeps_unnoticed_pause :
    (after ⟨2, 1, []⟩ (pause.take 4)).buckets = [] ∧
      (transcript ⟨2, 1, []⟩ pause).filter (fun e => e.1.client?.isSome) =
        transcript ⟨2, 1, []⟩ (pause.filter fun u => u.client?.isSome) := by
  refine ⟨by decide, (sweeps_unnoticed (by decide) (by decide) pause (by decide) ?_).1⟩
  intro maxIdle now hmem
  have htwo : maxIdle = 2 := by simp [pause] at hmem; omega
  simp [htwo]

end CostCatalog.Limiter
