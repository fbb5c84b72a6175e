import CostCatalog.Proofs.Limiter.Clients

/-!
# Clients apart

A client sees of a limiter its own bucket and nothing else. A request of the client, or a sweep,
does to that bucket what it does in any other limiter with the same bucket, and the request of
another client does nothing to it: that is one step, `SeenAlike.on_concerning` and
`SeenAlike.on_other`. So to a client a run is the run of its own requests and the sweeps,
`clients_isolated`. The arithmetic plays no part in this, so it holds of doubles as of exact
numbers, and the clock may go back.
-/

namespace CostCatalog.Limiter

variable {α : Type} {l m : Limiter α} {client other : String} {u : Use α}

/-! ## What concerns a client -/

/-- Whether a use is a request of a client or a sweep. -/
def Use.concerns (client : String) (u : Use α) : Bool := u.client?.all (· == client)

/-- The uses that do not concern a client are the requests of the others. -/
theorem Use.not_concerns_iff :
    u.concerns client = false ↔ ∃ other, u.client? = some other ∧ client ≠ other := by
  unfold concerns
  cases u.client? with
  | none => simp
  | some who => simpa using ne_comm

/-- What a client is told in a run, request by request. -/
def toldTo (client : String) (entries : List (Use α × Answer)) : List (Use α × Answer) :=
  entries.filter fun e => e.1.client? = some client

/-- Two limiters that a client cannot tell apart: they are of one size and rate and have the same
bucket for it, if any. In both of them a client has one bucket at most. -/
structure SeenAlike (client : String) (l m : Limiter α) : Prop where
  burst : m.burst = l.burst
  perSecond : m.perSecond = l.perSecond
  bucket : m.find? client = l.find? client
  nodup_left : (l.buckets.map Prod.fst).Nodup
  nodup_right : (m.buckets.map Prod.fst).Nodup

theorem SeenAlike.refl (h : (l.buckets.map Prod.fst).Nodup) (client : String) :
    SeenAlike client l l := ⟨rfl, rfl, rfl, h, h⟩

variable [Add α] [Sub α] [Mul α] [OfNat α 1] [LT α] [DecidableLT α] [LE α] [DecidableLE α]

/-! ## One use -/

/-- A request of the client is told the same in both limiters, and it or a sweep leaves them
alike. -/
theorem SeenAlike.on_concerning (h : SeenAlike client l m) (hu : u.concerns client = true) :
    SeenAlike client (u.on l).2 (u.on m).2 ∧
      (u.client? = some client → (u.on m).1 = (u.on l).1) := by
  cases hwho : u.client? with
  | none =>
    cases u with
    | cleanup maxIdle now =>
      refine ⟨⟨h.burst, h.perSecond, ?_, Use.nodup_clients_on h.nodup_left,
        Use.nodup_clients_on h.nodup_right⟩, nofun⟩
      rw [Use.on, Use.on, find?_cleanup h.nodup_left, find?_cleanup h.nodup_right, h.bucket]
    | _ => cases hwho
  | some who =>
    obtain rfl : who = client := by simpa [Use.concerns, hwho] using hu
    obtain ⟨made, -, hon⟩ := u.on_request hwho
    have hbucket : m.bucketFor who made = l.bucketFor who made := by
      rw [bucketFor, bucketFor, h.bucket, h.burst, h.perSecond]
    rw [hon, hon, hbucket]
    refine ⟨⟨by simp [h.burst], by simp [h.perSecond], ?_, nodup_clients_put h.nodup_left _ _,
      nodup_clients_put h.nodup_right _ _⟩, fun _ => rfl⟩
    rw [find?_put_self, find?_put_self]

/-- A request of another client to one of the limiters goes unseen. -/
theorem SeenAlike.on_other (h : SeenAlike client l m) (hu : u.concerns client = false) :
    SeenAlike client (u.on l).2 m := by
  obtain ⟨other, hwho, hne⟩ := Use.not_concerns_iff.mp hu
  obtain ⟨made, -, hon⟩ := u.on_request hwho
  have hbucket := Use.find?_on_of_ne (l := l) hwho hne
  rw [hon] at hbucket ⊢
  exact ⟨by simp [h.burst], by simp [h.perSecond], h.bucket.trans hbucket.symm,
    nodup_clients_put h.nodup_left _ _, h.nodup_right⟩

/-! ## Runs -/

/-- Of two limiters that a client cannot tell apart, one may be used by all and the other only as
far as it concerns the client. -/
theorem SeenAlike.run (h : SeenAlike client l m) (us : List (Use α)) :
    SeenAlike client (l.after us) (m.after (us.filter (·.concerns client))) ∧
      toldTo client (l.transcript us) =
        toldTo client (m.transcript (us.filter (·.concerns client))) := by
  induction us generalizing l m with
  | nil => exact ⟨h, rfl⟩
  | cons u us ih =>
    cases hu : u.concerns client with
    | true =>
      obtain ⟨halike, hsame⟩ := h.on_concerning hu
      obtain ⟨hafter, htold⟩ := ih halike
      refine ⟨by simpa [hu, after] using hafter, ?_⟩
      by_cases hown : u.client? = some client
      · simpa [hu, transcript, toldTo, hown, hsame hown] using htold
      · simpa [hu, transcript, toldTo, hown] using htold
    | false =>
      obtain ⟨hafter, htold⟩ := ih (h.on_other hu)
      obtain ⟨other, hwho, hne⟩ := Use.not_concerns_iff.mp hu
      refine ⟨by simpa [hu, after] using hafter, ?_⟩
      simpa [hu, transcript, toldTo, hwho, hne.symm] using htold

/-- Clients do not affect each other. In every run of a limiter a client is told, and has as its
bucket after every use, what it is told and has when all requests of the others are left out. So
two runs that differ only in those are the same to it. -/
theorem clients_isolated (l : Limiter α) (hclients : (l.buckets.map Prod.fst).Nodup)
    (client : String) (us : List (Use α)) :
    toldTo client (l.transcript us) =
        toldTo client (l.transcript (us.filter (·.concerns client))) ∧
      (∀ n, (l.after (us.take n)).find? client =
        (l.after ((us.take n).filter (·.concerns client))).find? client) ∧
      ∀ vs : List (Use α), vs.filter (·.concerns client) = us.filter (·.concerns client) →
        toldTo client (l.transcript vs) = toldTo client (l.transcript us) ∧
          (l.after vs).find? client = (l.after us).find? client := by
  have hrun (vs : List (Use α)) := (SeenAlike.refl hclients client).run vs
  refine ⟨(hrun us).2, fun n => (hrun (us.take n)).1.bucket.symm, fun vs hvs => ⟨?_, ?_⟩⟩
  · rw [(hrun vs).2, (hrun us).2, hvs]
  · rw [← (hrun vs).1.bucket, ← (hrun us).1.bucket, hvs]

/-- A client comes twice, and between its requests another one asks until it is refused. -/
def crowd : List (Use Int) :=
  [.allow "ada" 0 0, .allow "bob" 0 0, .check "bob" 0 0, .check "bob" 0 0, .cleanup 1 2,
    .allow "bob" 2 2, .check "ada" 2 3]

theorem clients_isolated_crowd :
    (([] : List (String × Bucket Int)).map Prod.fst).Nodup ∧
      toldTo "ada" (transcript ⟨2, 1, []⟩ crowd) =
        toldTo "ada" (transcript ⟨2, 1, []⟩ (crowd.filter (·.concerns "ada"))) ∧
      (after ⟨2, 1, []⟩ crowd).find? "ada" =
        (after ⟨2, 1, []⟩ (crowd.filter (·.concerns "ada"))).find? "ada" := by
  obtain ⟨htold, hbucket, -⟩ := clients_isolated ⟨2, 1, []⟩ List.nodup_nil "ada" crowd
  exact ⟨List.nodup_nil, htold, hbucket crowd.length⟩

end CostCatalog.Limiter
