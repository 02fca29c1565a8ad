import Dashboards.Proofs.Service.Failures

/-!
# Which failures are reported in an envelope

Whatever a route answers, a failure is reported in the envelope with its code, which fixes the status.
Requests that no route answers fail too, and these failures have no envelope: requests that lead
nowhere or to a path that is served for another method, requests whose body is no text or goes beyond
a bound, and questions of other origins about a request that is not allowed.  Every response repeats
the trace id of its request.
-/

namespace Dashboards

open History

namespace Service

/-! ## 1. Responses of routes -/

/-- A response that shows a failure in its envelope, with the status that the code of the failure
fixes. -/
def Response.IsEnvelope (r : Response) : Prop :=
  ∃ f : Failure, r.status = f.status ∧ r.payload = .json (failureEnvelope f r.trace)

/-- A response with a trace id that shows a failure, if it is one, in its envelope. -/
structure Response.Reports (r : Response) (trace : String) : Prop where
  trace_eq : r.trace = trace
  envelope : 400 ≤ r.status → r.IsEnvelope

namespace Response.Reports

variable {trace : String} {status : Nat} {r : Response}

theorem failure (trace : String) (f : Failure) : (Response.failure trace f).Reports trace :=
  ⟨rfl, fun _ => ⟨_, rfl, rfl⟩⟩

theorem json (hstatus : status < 400) (v : Value) : (Response.json trace status v).Reports trace := by
  rw [Response.json]
  split
  · exact ⟨rfl, fun hfailed => absurd hstatus (Nat.not_lt.2 hfailed)⟩
  · exact failure trace internalFailure

end Response.Reports

section Answers

variable {σ : Type} (respond : (e : Errand) → σ → e.Reply × σ) {trace : String}

/-- A regular answer to whatever was found out. -/
theorem reports_of_map {α : Type} {f : α → Response} (hf : ∀ a, (f a).Reports trace)
    {c : Attempt α} {w : σ} {r : Response} (h : ((f <$> c).run.run respond w).1 = .ok r) :
    r.Reports trace := by
  rw [Dialogue.run_mapResult] at h
  cases hfirst : (Dialogue.run respond c.run w).1 with
  | error e => rw [hfirst] at h; cases h
  | ok a =>
    rw [hfirst] at h
    cases h
    exact hf a

/-- A dry run that could not be made is a regular answer too. -/
theorem perform_simulate (s : Settings) (caller : Caller) (id : String) (b : SimulateBody) (w : σ) :
    ((perform s caller trace (.simulate id b)).run.run respond w).1 =
      .ok (.json trace 200 (match ((withArchive (simulate s id b)).run respond w).1 with
        | .ok simulation => simulationAnswer trace simulation
        | .error fault => noSimulation trace fault)) := by
  change (Dialogue.run respond ((withArchive (simulate s id b) >>= _) >>= _) w).1 = _
  rw [Dialogue.run_bind, Dialogue.run_bind]
  cases (Dialogue.run respond (withArchive (simulate s id b)) w).1 <;> rfl

/-- A task that is carried out ends with a response that reports its failure, if it is one. -/
theorem reports_of_perform (s : Settings) (caller : Caller) (task : Task) {w : σ} {r : Response}
    (h : ((perform s caller trace task).run.run respond w).1 = .ok r) : r.Reports trace := by
  cases task with
  | simulate id b =>
    rw [perform_simulate] at h
    cases h
    exact .json (by decide) _
  | health | about =>
    cases h
    exact .json (by decide) _
  | _ => exact reports_of_map respond (fun _ => .json (by decide) _) h

theorem reports_answer (s : Settings) (caller : Caller) (task : Task) (w : σ) :
    ((answer s caller trace task).run respond w).1.Reports trace := by
  rw [answer, Dialogue.run_bind]
  cases hdone : (Dialogue.run respond (perform s caller trace task).run w).1 with
  | ok response => exact reports_of_perform respond s caller task hdone
  | error f => exact .failure trace f

/-- A request for a route is answered by the route, unless its body cannot be read. -/
theorem reports_follow (s : State) (now : Float) {route : Route} {r : Request}
    (hread : State.contentFor route r ≠ .error .unparsed) (w : σ) :
    ((s.follow now trace route r).1.run respond w).1.Reports trace := by
  rw [State.follow]
  split
  · exact .failure trace _
  · exact absurd ‹_› hread
  · split
    · exact .failure trace _
    · split
      · exact reports_answer respond _ r.caller _ w
      · exact .failure trace _

end Answers

/-! ## 2. Requests -/

/-- A request that a route answers: it leads to one, and the body that the route reads is a text and
does not go beyond a bound. -/
def Request.Served (r : Request) : Prop :=
  ∃ route, lead r.method r.target = .route route ∧ State.contentFor route r ≠ .error .unparsed

theorem not_isEnvelope_of_ne {r : Response} (h : ∀ v, r.payload ≠ .json v) : ¬r.IsEnvelope :=
  fun ⟨_, _, hpayload⟩ => h _ hpayload

theorem not_isEnvelope_preflight (trace : String) (objections : List String) :
    ¬(Response.preflight trace objections).IsEnvelope := by
  rw [Response.preflight]
  split <;> exact not_isEnvelope_of_ne nofun

theorem not_isEnvelope_detail (trace : String) (status : Nat) (text : String) :
    ¬(Response.detail trace status text).IsEnvelope := by
  rintro ⟨f, -, hpayload⟩
  have hbody := Payload.json.inj hpayload
  simp [failureEnvelope] at hbody

/-- What no route answers gets a bare response, which is no envelope. -/
theorem receive_of_not_served (s : State) (now : Float) {r : Request} (h : ¬r.Served) :
    ∃ response, (s.receive now r).1 = .done response ∧ response.trace = (s.trace r).1 ∧
      ¬response.IsEnvelope := by
  have hunder : ∀ response : Response, ¬response.IsEnvelope →
      ¬(response.under r.method).IsEnvelope := by
    intro response hno
    rw [Response.under]
    split
    · exact not_isEnvelope_of_ne fun _ => Payload.noConfusion
    · exact hno
  have htrace : ∀ response : Response, (response.under r.method).trace = response.trace := by
    intro response
    rw [Response.under]
    split <;> rfl
  rw [State.receive]
  dsimp only
  split
  · refine ⟨_, rfl, ?_, not_isEnvelope_preflight _ _⟩
    rw [Response.preflight]
    split <;> rfl
  split
  · rename_i route hlead
    have hunread : State.contentFor route r = .error .unparsed := by
      by_contra hread
      exact h ⟨route, hlead, hread⟩
    rw [State.follow, hunread]
    exact ⟨_, rfl, rfl, not_isEnvelope_detail _ _ _⟩
  · exact ⟨_, rfl, htrace _, hunder _ (not_isEnvelope_of_ne fun _ => Payload.noConfusion)⟩
  · exact ⟨_, rfl, rfl, not_isEnvelope_of_ne fun _ => Payload.noConfusion⟩
  · exact ⟨_, rfl, htrace _, hunder _ (not_isEnvelope_detail _ _ _)⟩
  · exact ⟨_, rfl, htrace _, hunder _ (not_isEnvelope_detail _ _ _)⟩

/-- Every response repeats the trace id of its request, and a failure is reported in its envelope
exactly where a route answers the request. -/
theorem envelope_of_failed {σ : Type} (respond : (e : Errand) → σ → e.Reply × σ) (s : State)
    (now : Float) (r : Request) (w : σ) :
    let response := ((s.receive now r).1.run respond w).1
    response.trace = (s.trace r).1 ∧ (∀ id, r.trace? = some id → response.trace = id) ∧
      (400 ≤ response.status → (response.IsEnvelope ↔ r.Served)) := by
  intro response
  have htraced : response.trace = (s.trace r).1 ∧
      (400 ≤ response.status → (response.IsEnvelope ↔ r.Served)) := by
    by_cases hserved : r.Served
    · obtain ⟨route, hlead, hread⟩ := hserved
      have hreports : response.Reports (s.trace r).1 := by
        show ((s.receive now r).1.run respond w).1.Reports _
        rw [State.receive, Request.isPreflight_of_lead hlead, hlead]
        exact reports_follow respond _ now hread w
      exact ⟨hreports.trace_eq, fun hfailed =>
        iff_of_true (hreports.envelope hfailed) ⟨route, hlead, hread⟩⟩
    · obtain ⟨bare, hdone, htrace, hno⟩ := receive_of_not_served s now hserved
      have hbare : response = bare := by
        show ((s.receive now r).1.run respond w).1 = _
        rw [hdone]
        rfl
      rw [hbare]
      exact ⟨htrace, fun _ => iff_of_false hno hserved⟩
  refine ⟨htraced.1, fun id hid => ?_, htraced.2⟩
  rw [htraced.1, State.trace, hid]

/-- A rollback of a dashboard that is not there is reported in an envelope. -/
theorem envelope_of_failed_rollback :
    let response := ((strictService.receive 0 rollbackRequest).1.run
      (carry Registry.respond unreached) (otherDashboard, ())).1
    400 ≤ response.status ∧ response.IsEnvelope ∧ response.trace = traceText 0 := by
  intro response
  have hfailed : 400 ≤ response.status := by
    show 400 ≤ ((strictService.receive 0 rollbackRequest).1.run
      (carry Registry.respond unreached) (otherDashboard, ())).1.status
    rw [receive_rollbackRequest]
    decide +kernel
  have hserved : rollbackRequest.Served := by
    refine ⟨_, lead_rollbackRequest, fun hunread => ?_⟩
    change rollbackRequest.content = _ at hunread
    rw [content_rollbackRequest] at hunread
    cases hunread
  obtain ⟨htrace, -, henvelope⟩ := envelope_of_failed (carry Registry.respond unreached)
    strictService 0 rollbackRequest (otherDashboard, ())
  refine ⟨hfailed, (henvelope hfailed).2 hserved, htrace.trans ?_⟩
  with_unfolding_all rfl

/-- A request for a path that is not there. -/
def strayRequest : Request where
  method := "GET"
  target := ⟨pathOf ["", "unknown"], []⟩
  headers := []
  body := []

/-- It fails, and the failure has no envelope. -/
theorem not_envelope_of_stray :
    let response := ((openService.receive 0 strayRequest).1.run
      (carry Registry.respond unreached) (Registry.empty ⟨0⟩, ())).1
    400 ≤ response.status ∧ ¬response.IsEnvelope := by
  have hlead : lead strayRequest.method strayRequest.target = .nowhere := by
    rw [lead, strayRequest, segments_pathOf (by decide) (by decide)]
    decide +kernel
  have hreceive : (openService.receive 0 strayRequest).1 =
      .done ((Response.notFound (openService.trace strayRequest).1).under "GET") := by
    rw [State.receive, hlead]
    rfl
  rw [hreceive]
  exact ⟨by decide, not_isEnvelope_detail _ _ _⟩

end Service

end Dashboards
