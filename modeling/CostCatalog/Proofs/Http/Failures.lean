import CostCatalog.Proofs.Http.Operations

/-!
# Failures that tell nothing

What a caller learns of a fault is told by its species: its name and the kind of entry that it is
about, `Fault.outcome_of_species`. The words of an operation or a driver, contexts, limits and the
names of clients go to the log only. This holds of the envelopes of operations and of the responses
to what breaks out of a route, and so of any two runs of a request that fail at one boundary with
faults of one species, `Http.failures_leak_nothing`.
-/

namespace CostCatalog

/-! ## Species of faults -/

/-- What a fault is called, whether the catalogue knows it, and the kind of entry that it is about. -/
structure Fault.Species where
  isKnown : Bool
  title : String
  kind? : Option Kind
deriving DecidableEq, Repr

/-- The species of a fault. -/
def Fault.species : Fault → Species
  | .known c _ => ⟨true, c.title, c.kind?⟩
  | .unexpected a => ⟨false, a.title, none⟩

/-- A rule is told by its name and its kind. -/
private theorem Rule.eq_of_title {r r' : Rule} (htitle : r.title = r'.title)
    (hkind : r.kind = r'.kind) : r = r' := by
  cases r <;> cases r' <;> simp_all [title, kind]

/-- A cause that is no broken rule does not have the name of one. -/
theorem Cause.title_ne {c : Cause} (hc : ∀ r, c ≠ .rule r) (r : Rule) : c.title ≠ r.title := by
  cases c with
  | rule r' => exact absurd rfl (hc r')
  | database | timeout | throttled | cache | domain | other => cases r <;> simp [title, Rule.title]

/-- What a fault comes to is told by its species. -/
theorem Fault.outcome_of_species {f g : Fault} (h : f.species = g.species) :
    f.outcome = g.outcome := by
  cases f with
  | unexpected a =>
    cases g with
    | unexpected b => rfl
    | known d y => cases h
  | known c x =>
    cases g with
    | unexpected b => cases h
    | known d y =>
      have htitle : c.title = d.title := congrArg Species.title h
      have hkind : c.kind? = d.kind? := congrArg Species.kind? h
      cases c with
      | rule r =>
        cases d with
        | rule r' =>
          obtain rfl := Rule.eq_of_title htitle (Option.some.inj hkind)
          rfl
        | database | timeout | throttled | cache | domain | other =>
          exact absurd htitle.symm (Cause.title_ne (fun _ => Cause.noConfusion) r)
      | throttled client =>
        cases d with
        | rule r' => exact absurd htitle (Cause.title_ne (fun _ => Cause.noConfusion) r')
        | throttled => rfl
        | database | timeout | cache | domain | other => simp [Cause.title] at htitle
      | database | timeout | cache | domain | other =>
        cases d with
        | rule r' => exact absurd htitle (Cause.title_ne (fun _ => Cause.noConfusion) r')
        | throttled => simp [Cause.title] at htitle
        | database | timeout | cache | domain | other => rfl

/-- An entry of the table of outcomes matches a fault. -/
def Fault.InTable : Fault → Prop
  | .known c _ => ∃ rule ∈ outcomeRules, rule.applies c = true
  | .unexpected _ => False

/-- What no entry of the table matches is an internal error. -/
private theorem Fault.outcome_of_not_inTable {f : Fault} (h : ¬ f.InTable) :
    f.outcome = .internal := by
  cases f with
  | unexpected a => rfl
  | known c x =>
    have hnone : outcomeRules.find? (·.applies c) = none :=
      List.find?_eq_none.mpr fun rule hrule happlies => h ⟨rule, hrule, happlies⟩
    rw [outcome, hnone]

/-- The statuses of outcomes are numbers, written as such. -/
private theorem Fault.toString_status (f : Fault) :
    toString (Decimal.ofDigits f.outcome.status.toList) = f.outcome.status := by
  have hmem : f.outcome.status = "404" ∨ f.outcome.status = "409" ∨ f.outcome.status = "400" ∨
      f.outcome.status = "429" ∨ f.outcome.status = "500" := by
    cases f with
    | unexpected a => simp [outcome, Outcome.internal]
    | known c x =>
      cases c with
      | rule r => cases r <;> simp [outcome, outcomeRules]
      | database | timeout | throttled | cache | domain | other =>
        simp [outcome, outcomeRules, Outcome.internal]
  rcases hmem with h | h | h | h | h <;> rw [h] <;> rfl

namespace Http

open Wire (EmptyResponse Message)

/-! ## What breaks out of a route -/

/-- The response to a fault holds the status of the fault and nothing else. -/
theorem faultResponse_eq (f : Fault) : faultResponse f =
    statusResponse (Decimal.ofDigits f.outcome.status.toList) (Service.failed f) := by
  cases f with
  | known c x => rfl
  | unexpected a =>
    have h : Decimal.ofDigits "500".toList = 500 := rfl
    exact (congrArg (statusResponse · Service.internalError) h).symm

theorem faultResponse_of_species {f g : Fault} (h : f.species = g.species) :
    faultResponse f = faultResponse g := by
  rw [faultResponse_eq, faultResponse_eq, Service.failed, Service.failed,
    Fault.outcome_of_species h]

/-! ## Requests that fail -/

/-- Where a request can fail: at the limiter, in the command of its operation, or anywhere else in its
route. -/
inductive Boundary where
  | limiter
  | command
  | route

namespace App

/-- A request fails at a boundary with a fault. -/
def FailsAt (a : App) (r : Request) (f : Fault) : Boundary → Prop
  | .limiter => (a.letThrough r).1 = false ∧ f = .ofCause (.throttled r.clientName)
  | .command => (a.letThrough r).1 = true ∧ a.access ≠ .absent ∧ f.isCancellation = false ∧
      ∃ op, r.operation? = some op ∧
      ((Service.underDeadline op.name a.setting.limit (op.command a.setting)).perform a.reached).1 =
        .ok (.error f)
  | .route => (a.letThrough r).1 = true ∧ ((a.route r).perform a.reached).1 = .error f

/-- The limiter changes nothing but itself. -/
theorem letThrough_snd (a : App) (r : Request) :
    ∃ limiter, (a.letThrough r).2 = { a with limiter } := by
  unfold letThrough
  split
  · exact ⟨_, rfl⟩
  · split <;> exact ⟨_, rfl⟩

/-- A request that is let through is answered by what comes of it. -/
theorem handle_of_letThrough {a : App} {r : Request} (h : (a.letThrough r).1 = true)
    {response : Response} (hanswer : ((a.answer r).perform a.reached).1 = .ok response) :
    (a.handle r).1 = response := by
  obtain ⟨limiter, hafter⟩ := a.letThrough_snd r
  have hpair : a.letThrough r = (true, { a with limiter }) := Prod.ext h hafter
  have hsame : ((answer { a with limiter } r).perform (reached { a with limiter })).1 =
      .ok response := hanswer
  simp only [handle, hpair, if_true, hsame]

/-- A request that is turned away is answered as its fault is. -/
private theorem handle_of_turnedAway {a : App} {r : Request} (h : (a.letThrough r).1 = false) :
    (a.handle r).1 = statusResponse 429 Service.turnedAway := by
  obtain ⟨limiter, hafter⟩ := a.letThrough_snd r
  have hpair : a.letThrough r = (false, { a with limiter }) := Prod.ext h hafter
  simp only [handle, hpair]
  rfl

variable {a : App} {r : Request} {w : World}

theorem answer_of_settled {response : Response} (h : ((a.settled r).perform w).1 = .ok response) :
    ((a.answer r).perform w).1 = .ok { response with allowOrigin := a.allowedOrigin r } := by
  rw [answer, Action.perform_bind_ok (Action.perform_attempt w (a.settled r)), h]
  rfl

/-- What comes out of a route is sent to the origins that may have it. -/
private theorem answer_of_response {response : Response}
    (h : ((a.route r).perform w).1 = .ok response) :
    ((a.answer r).perform w).1 = .ok { response with allowOrigin := a.allowedOrigin r } := by
  apply answer_of_settled
  rw [settled, Action.perform_bind_ok (Action.perform_attempt w (a.route r)), h]
  rfl

/-- What breaks out of a route is answered by its status; what the catalogue does not know gets past
the check of origins. -/
private theorem answer_of_fault {f : Fault} (h : ((a.route r).perform w).1 = .error f) :
    ((a.answer r).perform w).1 = .ok { faultResponse f with
      allowOrigin := if f.species.isKnown then a.allowedOrigin r else none } := by
  cases f with
  | known c x =>
    apply answer_of_settled
    rw [settled, Action.perform_bind_ok (Action.perform_attempt w (a.route r)), h]
    rfl
  | unexpected e =>
    have hsettled : ((a.settled r).perform w).1 = .error (.unexpected e) := by
      rw [settled, Action.perform_bind_ok (Action.perform_attempt w (a.route r)), h]
      rfl
    rw [answer, Action.perform_bind_ok (Action.perform_attempt w (a.settled r)), hsettled]
    rfl

/-- What is answered to a request that fails at a boundary with a fault. -/
def told (a : App) (r : Request) (f : Fault) : Boundary → Response
  | .limiter => statusResponse 429 Service.turnedAway
  | .command =>
    { Response.ofJson 200
        ((r.operation?.map fun op => (op.blank (Service.failed f)).toJson).getD .null) with
      allowOrigin := a.allowedOrigin r }
  | .route =>
    { faultResponse f with
      allowOrigin := if f.species.isKnown then a.allowedOrigin r else none }

theorem handle_of_failsAt {f : Fault} {b : Boundary} (h : a.FailsAt r f b) :
    (a.handle r).1 = a.told r f b := by
  cases b with
  | limiter => exact handle_of_turnedAway h.1
  | command =>
    obtain ⟨hthrough, haccess, huncancelled, op, hop, hcommand⟩ := h
    refine handle_of_letThrough hthrough (answer_of_response ?_)
    rw [route_of_operation hop haccess, hop]
    exact Service.Operation.respond_of_fault huncancelled hcommand
  | route => exact handle_of_letThrough h.1 (answer_of_fault h.2)

/-- What is answered depends on the fault's species, and on neither the service, apart from the origins
that it allows, nor the client. -/
private theorem told_of_species {a a' : App}
    (horigins : a.settings.corsOrigins = a'.settings.corsOrigins)
    {f g : Fault} (h : f.species = g.species) (r : Request) (client : Option String)
    (b : Boundary) : a.told r f b = a'.told { r with client } g b := by
  have hallowed : a.allowedOrigin r = a'.allowedOrigin { r with client } := by
    unfold allowedOrigin
    rw [horigins]
  have hoperation : Request.operation? { r with client } = r.operation? := rfl
  have hfailed : Service.failed f = Service.failed g := by
    rw [Service.failed, Service.failed, Fault.outcome_of_species h]
  cases b with
  | limiter => rfl
  | command => rw [told, told, hallowed, hoperation, hfailed]
  | route => rw [told, told, hallowed, faultResponse_of_species h, h]

end App

/-- The status in the envelope that a response holds. -/
def Response.base? (response : Response) : Option Json :=
  match response.body with
  | .json v => v.get? "base"
  | .text _ => none

/-- Wherever a request fails, the envelope of the response holds the status of the fault. -/
private theorem App.base?_of_failsAt {a : App} {r : Request} {f : Fault} {b : Boundary}
    (h : a.FailsAt r f b) :
    (a.handle r).1.base? = some (Message.toJson (Service.failed f)) := by
  rw [handle_of_failsAt h]
  cases b with
  | limiter => rw [h.2]; rfl
  | command =>
    obtain ⟨-, -, -, op, hop, -⟩ := h
    rw [told, hop]
    cases op with
    | create k | get k | update k | list k => cases k <;> rfl
    | delete k => rfl
  | route => rw [told, faultResponse_eq]; rfl

/-- What a caller is told of a fault is told by its species, in the status that a command comes to, in
the response to what breaks out of a route, and so in the responses to any two runs of a request that
fail at one boundary; and a fault that the table does not know tells nothing. What breaks out of a
route is sent under the status that its envelope holds, and the envelope holds nothing else. A command
that is cancelled comes to no status: the cancellation goes on.

Every exception is taken to have a text: one whose own text cannot be had is not spoken of. -/
theorem failures_leak_nothing :
    (∀ f g : Fault, f.species = g.species →
      Service.failed f = Service.failed g ∧ faultResponse f = faultResponse g) ∧
    (∀ f : Fault, ¬ f.InTable → Service.failed f = ⟨"500", false, "Internal server error", []⟩) ∧
    (∀ (α : Type) (operation : String) (limit : Option Duration) (c : Action α) (w : World)
      (f : Fault), ((Service.underDeadline operation limit c).perform w).1 = .ok (.error f) →
        ((Service.outcomeOf operation limit c).perform w).1 =
          if f.isCancellation then .error f else .ok (.error (Service.failed f))) ∧
    (∀ (a : App) (r : Request) (f : Fault), a.FailsAt r f .route →
      toString (a.handle r).1.status = (Service.failed f).statusCode ∧
        (a.handle r).1.body = .json (Message.toJson (EmptyResponse.mk (Service.failed f)))) ∧
    (∀ (a : App) (r : Request) (b : Boundary) (f : Fault), a.FailsAt r f b →
      (a.handle r).1.base? = some (Message.toJson (Service.failed f))) ∧
    ∀ (a a' : App) (r : Request) (client : Option String) (b : Boundary) (f g : Fault),
      a.settings.corsOrigins = a'.settings.corsOrigins → f.species = g.species →
      a.FailsAt r f b → a'.FailsAt { r with client } g b →
      (a.handle r).1 = (a'.handle { r with client }).1 := by
  refine ⟨?_, ?_, ?_, ?_, ?_, ?_⟩
  · intro f g h
    exact ⟨by rw [Service.failed, Service.failed, Fault.outcome_of_species h],
      faultResponse_of_species h⟩
  · intro f h
    rw [Service.failed, Fault.outcome_of_not_inTable h]
    rfl
  · exact fun α operation limit c w f => Service.outcomeOf_of_fault
  · intro a r f hf
    rw [App.handle_of_failsAt hf, App.told, faultResponse_eq]
    exact ⟨f.toString_status, rfl⟩
  · exact fun a r b f => App.base?_of_failsAt
  · intro a a' r client b f g horigins h hf hg
    rw [App.handle_of_failsAt hf, App.handle_of_failsAt hg]
    exact App.told_of_species horigins h r client b

/-- A service that gives its commands no time. -/
def hasty (seconds : Float) : App where
  settings := { requestTimeoutSeconds := seconds, rateLimitEnabled := false }
  log := {}
  limiter := none
  world := { wall := .epoch }

/-- Asks for a unit. -/
def lookup : Request where
  method := "GET"
  path := "/api/v1/uoms/KG"

/-- The fault of a command that was given no time. -/
def tooLate (seconds : Float) : Fault := .pastDeadline "GetUOM" (some (.real seconds))

theorem failures_leak_nothing_too_late :
    (hasty 0.0).FailsAt lookup (tooLate 0.0) .command ∧
      (hasty (-1.0)).FailsAt { lookup with client := some "10.0.0.7" } (tooLate (-1.0)) .command ∧
      (tooLate 0.0).message ≠ (tooLate (-1.0)).message ∧
      ((hasty 0.0).handle lookup).1 =
        ((hasty (-1.0)).handle { lookup with client := some "10.0.0.7" }).1 := by
  have hzero : (hasty 0.0).FailsAt lookup (tooLate 0.0) .command :=
    ⟨rfl, by decide, rfl, .get .uom "KG", rfl, rfl⟩
  have hnegative : (hasty (-1.0)).FailsAt { lookup with client := some "10.0.0.7" }
      (tooLate (-1.0)) .command :=
    ⟨rfl, by decide, rfl, .get .uom "KG", rfl, rfl⟩
  refine ⟨hzero, hnegative, by decide +kernel, ?_⟩
  exact failures_leak_nothing.2.2.2.2.2 _ _ _ _ _ (tooLate 0.0) (tooLate (-1.0)) rfl rfl hzero
    hnegative

end Http

end CostCatalog
