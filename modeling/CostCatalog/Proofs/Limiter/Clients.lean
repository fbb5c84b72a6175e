import CostCatalog.Limiter.Uses
import CostCatalog.Proofs.Keyed

/-!
# Clients and their buckets

What a use of a limiter does to the bucket of a client: a request of the client takes from it, having
made it first if there is none; a request of another client leaves it alone. So in a run of requests
what a client is told is what its bucket alone would tell, `Limiter.transcript_of_find?` and
`Limiter.transcript_of_new`.
-/

namespace CostCatalog.Limiter

variable {α : Type} {l : Limiter α} {client other : String} {b : Bucket α}

/-! ## Buckets put -/

theorem buckets_put (l : Limiter α) (client : String) (b : Bucket α) :
    (l.put client b).buckets = placed Prod.fst l.buckets (client, b) := by
  unfold put placed find?
  rw [Option.isSome_map]
  split <;> rfl

theorem find?_put_self : (l.put client b).find? client = some b := by
  rw [find?, buckets_put, find?_placed_self Prod.fst l.buckets (client, b)]
  rfl

theorem find?_put_of_ne (h : other ≠ client) : (l.put client b).find? other = l.find? other := by
  rw [find?, buckets_put, find?_placed_of_ne h l.buckets]
  rfl

theorem nodup_clients_put (h : (l.buckets.map Prod.fst).Nodup) (client : String) (b : Bucket α) :
    ((l.put client b).buckets.map Prod.fst).Nodup := by
  rw [buckets_put]
  exact nodup_map_placed h (client, b)

@[simp] theorem burst_put : (l.put client b).burst = l.burst := by
  unfold put
  split <;> rfl

@[simp] theorem perSecond_put : (l.put client b).perSecond = l.perSecond := by
  unfold put
  split <;> rfl

theorem find?_cleanup [Sub α] [LT α] [DecidableLT α] (h : (l.buckets.map Prod.fst).Nodup)
    (client : String) (maxIdle now : α) :
    (l.cleanup maxIdle now).2.find? client =
      (l.find? client).filter fun b => !isStale b maxIdle now := by
  simp only [cleanup, find?, find?_filter_of_nodup_map h]
  cases l.buckets.find? fun e => e.1 == client with
  | none => rfl
  | some e => by_cases he : isStale e.2 maxIdle now <;> simp [Option.filter_some, he]

/-! ## What a request is told -/

/-- The bucket that a request of a client takes from; a new one, when there is none, is made at a
reading of the clock. -/
def bucketFor (l : Limiter α) (client : String) (made : α) : Bucket α :=
  (l.find? client).getD (.full l.burst l.perSecond made)

/-- How a use is told whether its request is let through. -/
def Use.told : Use α → Bool → Answer
  | .allow _ _ _, admitted => .allowed admitted
  | .check client _ _, admitted =>
    .checked (if admitted then .ok () else .error (.ofCause (.throttled client)))
  | .cleanup _ _, _ => .dropped 0

theorem Use.admits_told {u : Use α} (h : u.client? = some client) (admitted : Bool) :
    (u.told admitted).admits = admitted := by
  cases u with
  | allow c made now => rfl
  | check c made now => cases admitted <;> rfl
  | cleanup maxIdle now => cases h

/-! ## The requests of a client -/

/-- The requests of a client in a run, by their times, each with whether it is let through. -/
def requestsOf (client : String) (entries : List (Use α × Answer)) : List (α × Bool) :=
  (entries.filter fun e => e.1.client? = some client).map fun e => (e.1.now, e.2.admits)

/-- The times of the requests of a client. -/
def timesOf (client : String) (us : List (Use α)) : List α :=
  (us.filter fun u => u.client? = some client).map Use.now

theorem Use.now_sublist_readings (u : Use α) : [u.now].Sublist u.readings := by
  cases u <;> simp [Use.readings, Use.now]

private theorem timesOf_sublist (client : String) (us : List (Use α)) :
    (timesOf client us).Sublist (us.flatMap Use.readings) := by
  induction us with
  | nil => exact List.Sublist.refl []
  | cons u us ih =>
    rw [List.flatMap_cons]
    by_cases hclient : u.client? = some client
    · simpa [timesOf, hclient] using u.now_sublist_readings.append ih
    · simpa [timesOf, hclient] using (List.nil_sublist u.readings).append ih

/-- A clock that does not go back, up to a use and from it on. -/
theorem Use.pairwise_readings [LE α] {first : α} {u : Use α} {us : List (Use α)}
    (h : (first :: (u :: us).flatMap Use.readings).Pairwise (· ≤ ·)) :
    (first :: u.readings).Pairwise (· ≤ ·) ∧ (u.now :: us.flatMap Use.readings).Pairwise (· ≤ ·) := by
  rw [List.flatMap_cons] at h
  constructor
  · exact h.sublist ((List.sublist_append_left ..).cons_cons first)
  · have hlast := (u.now_sublist_readings.append (List.Sublist.refl (us.flatMap Use.readings)))
    exact h.sublist (hlast.cons first)

/-! ## One use -/

variable [Add α] [Sub α] [Mul α] [OfNat α 1] [LT α] [DecidableLT α] [LE α] [DecidableLE α]

/-- A request is told what the client's bucket gives, and leaves that bucket. -/
theorem Use.on_request {u : Use α} (h : u.client? = some client) : ∃ made, u.readings = [made, u.now] ∧
    ∀ l : Limiter α, u.on l = (u.told ((l.bucketFor client made).take u.now).1,
      l.put client ((l.bucketFor client made).take u.now).2) := by
  cases u with
  | allow c made now =>
    cases h
    exact ⟨made, rfl, fun _ => rfl⟩
  | check c made now =>
    cases h
    exact ⟨made, rfl, fun _ => rfl⟩
  | cleanup maxIdle now => cases h

/-- A request of another client leaves a bucket alone. -/
theorem Use.find?_on_of_ne {u : Use α} (h : u.client? = some other) (hne : client ≠ other) :
    (u.on l).2.find? client = l.find? client := by
  obtain ⟨made, -, hon⟩ := u.on_request h
  rw [hon]
  exact find?_put_of_ne hne

/-- In a limiter in which a client has one bucket at most it has one at most after any use. -/
theorem Use.nodup_clients_on {u : Use α} (h : (l.buckets.map Prod.fst).Nodup) :
    ((u.on l).2.buckets.map Prod.fst).Nodup := by
  cases u with
  | allow c made now => exact nodup_clients_put h c _
  | check c made now => exact nodup_clients_put h c _
  | cleanup maxIdle now => exact h.sublist (List.filter_sublist.map Prod.fst)

/-! ## Runs of requests -/

/-- What a client with a bucket is told in a run of requests is what the bucket alone tells. -/
private theorem transcript_of_find? {us : List (Use α)} (hrequests : ∀ u ∈ us, u.client? ≠ none)
    (h : l.find? client = some b) :
    requestsOf client (l.transcript us) = b.transcript (timesOf client us) := by
  induction us generalizing l b with
  | nil => rfl
  | cons u us ih =>
    have hrest := fun v hv => hrequests v (List.mem_cons_of_mem _ hv)
    obtain ⟨who, hwho⟩ := Option.ne_none_iff_exists'.mp (hrequests u (List.mem_cons_self ..))
    by_cases hclient : who = client
    · subst hclient
      obtain ⟨made, -, hon⟩ := u.on_request hwho
      have hbucket : l.bucketFor who made = b := by rw [bucketFor, h]; rfl
      replace hon := hbucket ▸ hon l
      have hnext := ih (l := (u.on l).2) hrest (by rw [hon]; exact find?_put_self)
      simpa [requestsOf, timesOf, transcript, Bucket.transcript, hwho, hon, Use.admits_told hwho]
        using hnext
    · have hnext := ih (l := (u.on l).2) hrest
        ((Use.find?_on_of_ne hwho (Ne.symm hclient)).trans h)
      simpa [requestsOf, timesOf, transcript, hwho, hclient] using hnext

/-- What a client without a bucket is told is what a bucket tells that is made, full, at a reading of
the clock not after its first request. -/
theorem transcript_of_new {us : List (Use α)} (hrequests : ∀ u ∈ us, u.client? ≠ none)
    (hclock : (us.flatMap Use.readings).Pairwise (· ≤ ·)) (h : l.find? client = none) :
    ∃ made, (made :: timesOf client us).Pairwise (· ≤ ·) ∧
      requestsOf client (l.transcript us) =
        (Bucket.full l.burst l.perSecond made).transcript (timesOf client us) := by
  induction us generalizing l with
  | nil => exact ⟨1, List.pairwise_singleton .., rfl⟩
  | cons u us ih =>
    have hrest := fun v hv => hrequests v (List.mem_cons_of_mem _ hv)
    obtain ⟨who, hwho⟩ := Option.ne_none_iff_exists'.mp (hrequests u (List.mem_cons_self ..))
    obtain ⟨made, hreadings, hon⟩ := u.on_request hwho
    replace hon := hon l
    rw [List.flatMap_cons] at hclock
    by_cases hclient : who = client
    · subst hclient
      have hbucket : l.bucketFor who made = .full l.burst l.perSecond made := by rw [bucketFor, h]; rfl
      rw [hbucket] at hon
      have hnext := transcript_of_find? (l := (u.on l).2) hrest (by rw [hon]; exact find?_put_self)
      refine ⟨made, hclock.sublist ?_, ?_⟩
      · simpa [timesOf, hwho, hreadings] using timesOf_sublist who us
      · simpa [requestsOf, timesOf, transcript, Bucket.transcript, hwho, hon, Use.admits_told hwho]
          using hnext
    · have hnext := ih (l := (u.on l).2) hrest (List.pairwise_append.mp hclock).2.1
        ((Use.find?_on_of_ne hwho (Ne.symm hclient)).trans h)
      simpa [requestsOf, timesOf, transcript, hwho, hclient, hon] using hnext

end CostCatalog.Limiter
