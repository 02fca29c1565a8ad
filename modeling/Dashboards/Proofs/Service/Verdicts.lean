import Dashboards.Proofs.Integrity.Range
import Dashboards.Proofs.Json.Limits
import Dashboards.Proofs.Service.Envelopes

/-!
# Verdicts on patches and data

A dry run of a patch and a request for insights end in a regular answer, which says whether the patch
or the data are accepted.  Four things keep them from it: a previewed document that is nested too
deeply to be shown, a text in the answer that cannot be encoded, an integer in the rows that is beyond
the range of floats, and settings by which no data can be checked.
-/

namespace Dashboards

open History

/-! ## 1. What answers show is shallow -/

namespace Integrity

theorem depth_badCell (c : BadCell) : c.toValue.depth = 2 := rfl

theorem depth_discrepancy {d : Discrepancy}
    (h : d.first.isCollection = false ∧ d.second.isCollection = false) : d.toValue.depth = 2 := by
  have hdifference : (Value.ofOption .num d.difference).depth = 1 := by cases d.difference <;> rfl
  simp [Discrepancy.toValue, Value.depth, Value.depthOfMembers, Value.depth_of_scalar h.1,
    Value.depth_of_scalar h.2, hdifference]

theorem depth_details {f : Finding} (h : f.Shallow) {ms : Members Value}
    (hms : f.details? = some ms) : (Value.obj ms).depth ≤ 4 := by
  cases f with
  | nonFiniteCells cells =>
    cases hms
    refine Value.depth_obj_le_iff.2 fun m hm => ?_
    obtain rfl := List.mem_singleton.1 hm
    refine Value.depth_arr_le_iff.2 fun v hv => ?_
    obtain ⟨c, -, rfl⟩ := List.mem_map.1 hv
    exact Nat.le_of_eq (depth_badCell c)
  | differentTotals ds =>
    cases hms
    refine Value.depth_obj_le_iff.2 fun m hm => ?_
    obtain rfl := List.mem_singleton.1 hm
    refine Value.depth_arr_le_iff.2 fun v hv => ?_
    obtain ⟨d, hd, rfl⟩ := List.mem_map.1 hv
    exact Nat.le_of_eq (depth_discrepancy (h d (List.mem_of_mem_take hd)))
  | tooFewRows | highRate | negativeMoney =>
    cases hms
    exact show 2 ≤ 4 by decide
  | _ => cases hms

theorem depth_finding {f : Finding} (h : f.Shallow) : f.toValue.depth ≤ 5 := by
  refine Value.depth_obj_le_iff.2 fun m hm => ?_
  simp only [List.mem_append] at hm
  obtain (hm | hm) | hm := hm
  · simp only [List.mem_cons, List.not_mem_nil, or_false] at hm
    obtain rfl | rfl | rfl := hm <;> exact show 1 ≤ 4 by decide
  · split at hm
    · obtain rfl := List.mem_singleton.1 hm
      exact Nat.le_trans (Value.depth_ofStrings _) (by decide)
    · cases hm
  · split at hm
    · rename_i ms hms
      obtain rfl := List.mem_singleton.1 hm
      dsimp only
      rw [Value.depth_finiteOnly]
      exact depth_details h hms
    · cases hm

theorem depth_report {r : Report} (h : ∀ f ∈ r.errors ++ r.warnings, f.Shallow) :
    r.toValue.depth ≤ 7 := by
  have hfindings : ∀ {fs : List Finding}, (∀ f ∈ fs, f ∈ r.errors ++ r.warnings) →
      (Value.arr (fs.map (·.toValue))).depth ≤ 6 := fun hfs =>
    Value.depth_arr_le_iff.2 fun v hv => by
      obtain ⟨f, hf, rfl⟩ := List.mem_map.1 hv
      exact depth_finding (h f (hfs f hf))
  have herrors := hfindings fun f hf => List.mem_append_left r.warnings hf
  have hwarnings := hfindings fun f hf => List.mem_append_right r.errors hf
  have hchecks := Value.depth_ofStrings (r.performed.map (·.name))
  simp only [Report.toValue, Report.checkNames, Value.depth, Value.depthOfMembers] at *
  omega

end Integrity

namespace Insights

theorem depth_inputs (inputs : Members Float) : (Value.obj (inputs.mapValues .ofFloat)).depth ≤ 2 := by
  refine Value.depth_obj_le_iff.2 fun m hm => ?_
  obtain ⟨⟨key, x⟩, -, rfl⟩ := List.mem_map.1 hm
  exact Nat.le_refl 1

/-- The members of a calculation, wherever it is shown. -/
theorem depth_calculation (c : Calculation) : ∀ m ∈ c.members, m.2.depth ≤ 2 := by
  intro m hm
  simp only [Calculation.members, List.mem_cons, List.not_mem_nil, or_false] at hm
  obtain rfl | rfl | rfl | rfl := hm
  · exact show 1 ≤ 2 by decide
  · exact depth_inputs c.inputs
  · exact show 1 ≤ 2 by decide
  · exact show 1 ≤ 2 by decide

theorem depth_finding (x : Finding Float) : ∀ m ∈ x.members, m.2.depth ≤ 3 := by
  intro m hm
  have hscalar : ∀ {v : Value}, v.isCollection = false → v.depth ≤ 3 := fun hv =>
    Value.depth_le_of_scalar hv (by decide)
  simp only [Finding.members, List.mem_append] at hm
  obtain (hm | hm) | hm := hm
  · simp only [List.mem_cons, List.not_mem_nil, or_false] at hm
    obtain rfl | rfl | rfl | rfl | rfl | rfl | rfl | rfl := hm
    case inr.inr.inr.inr.inr.inl =>
      exact Value.depth_obj_le_iff.2 (depth_calculation x.evidence.calculation)
    all_goals exact hscalar rfl
  · rw [Finding.comparison] at hm
    split at hm
    · simp only [List.mem_cons, List.not_mem_nil, or_false] at hm
      obtain rfl | rfl := hm <;> exact hscalar rfl
    · cases hm
  · simp only [List.mem_cons, List.not_mem_nil, or_false] at hm
    obtain rfl | rfl := hm <;> exact hscalar rfl

theorem depth_trace (x : Finding Float) (range : DateRange) (source : String) :
    (x.trace range source).depth ≤ 3 := by
  refine Value.depth_obj_le_iff.2 fun m hm => ?_
  simp only [List.mem_append, List.mem_cons, List.not_mem_nil, or_false] at hm
  obtain (rfl | hm) | rfl | rfl := hm
  · exact show 1 ≤ 2 by decide
  · exact depth_calculation _ m hm
  · exact show 1 ≤ 2 by decide
  · exact Nat.le_refl 2

end Insights

theorem depth_issue (i : Issue) : i.toValue.depth ≤ 3 := by
  have hdetails : ∀ v, i.objection.details? = some v → v.depth = 2 := by
    intro v hv
    cases hobjection : i.objection <;> rw [hobjection] at hv <;> cases hv <;> rfl
  refine Value.depth_obj_le_iff.2 fun m hm => ?_
  simp only [List.mem_append, List.mem_cons, List.not_mem_nil, or_false] at hm
  obtain (((rfl | rfl) | hm) | hm) | hm := hm
  · exact show 1 ≤ 2 by decide
  · exact show 1 ≤ 2 by decide
  · split at hm
    · obtain rfl := List.mem_singleton.1 hm
      exact show 1 ≤ 2 by decide
    · cases hm
  · split at hm
    · obtain rfl := List.mem_singleton.1 hm
      exact show 1 ≤ 2 by decide
    · cases hm
  · split at hm
    · rename_i v hv
      obtain rfl := List.mem_singleton.1 hm
      exact Nat.le_of_eq (hdetails v hv)
    · cases hm

theorem depth_issues (issues : List Issue) : (Value.arr (issues.map (·.toValue))).depth ≤ 4 :=
  Value.depth_arr_le_iff.2 fun v hv => by
    obtain ⟨i, -, rfl⟩ := List.mem_map.1 hv
    exact depth_issue i

/-- The details of a failure that list issues. -/
theorem depth_errors (issues : List Issue) :
    (Value.obj [("errors", .arr (issues.map (·.toValue)))]).depth ≤ 5 := by
  refine Value.depth_obj_le_iff.2 fun m hm => ?_
  obtain rfl := List.mem_singleton.1 hm
  exact depth_issues issues

theorem depth_failure {f : Failure} {n : Nat} (h : ∀ d, f.details = some d → d.depth ≤ n) :
    f.toValue.depth ≤ max n 1 + 1 := by
  refine Value.depth_obj_le_iff.2 fun m hm => ?_
  simp only [List.mem_append, List.mem_cons, List.not_mem_nil, or_false] at hm
  obtain (rfl | rfl) | hm := hm
  · exact Nat.le_max_right n 1
  · exact Nat.le_max_right n 1
  · split at hm
    · rename_i d hd
      obtain rfl := List.mem_singleton.1 hm
      exact Nat.le_trans (h d hd) (Nat.le_max_left n 1)
    · cases hm

/-! ## 2. Answers -/

/-- A dry run that can be shown: its document, if there is one, is not nested too deeply, and its texts
can be encoded. -/
structure Simulation.Shown (x : Simulation) : Prop where
  shallow : ∀ doc, x.newDocument = some doc → (Value.obj doc).depth ≤ Excess.responseDepth
  encodable : Value.areEncodableMembers (Service.simulationMembers x) = true

instance (x : Simulation) : Decidable x.Shown :=
  decidable_of_iff ((x.newDocument.all fun doc => (Value.obj doc).depth ≤ Excess.responseDepth) ∧
      Value.areEncodableMembers (Service.simulationMembers x) = true) (by
    simp only [Option.all_eq_true, decide_eq_true_eq]
    exact ⟨fun h => ⟨h.1, h.2⟩, fun h => ⟨h.shallow, h.encodable⟩⟩)

namespace Service

/-- A response in JSON whose body says whether all is well. -/
def Response.Says (r : Response) (ok : Bool) : Prop :=
  r.status = 200 ∧ ∃ body, r.payload = .json body ∧ body.member? "ok" = some (.bool ok)

/-- What keeps within the limits is sent, and anything else leads to a failure. -/
theorem Response.json_cases (trace : String) (v : Value) :
    let response := Response.json trace 200 v
    (v.depth ≤ Excess.responseDepth + 1 → v.isEncodable = true →
      ∀ ok, v.member? "ok" = some (.bool ok) → response.Says ok) ∧
    (¬(v.depth ≤ Excess.responseDepth + 1 ∧ v.isEncodable = true) → response.status = 500) := by
  constructor
  · intro hdepth hencodable ok hok
    rw [Response.json, if_pos ⟨hdepth, hencodable⟩]
    refine ⟨rfl, v.finiteOnly, rfl, ?_⟩
    cases v with
    | obj ms =>
      change Members.get? ms "ok" = _ at hok
      show Members.get? (Value.finiteOnlyMembers ms) "ok" = _
      rw [Value.get?_finiteOnlyMembers, hok]
      rfl
    | _ => cases hok
  · intro hbeyond
    rw [Response.json, if_neg hbeyond]
    rfl

theorem depth_firstIssue {x : Simulation} {f : Failure} (h : firstIssue? x = some f) :
    f.toValue.depth ≤ 6 := by
  refine depth_failure (n := 5) fun d hd => ?_
  rw [firstIssue?] at h
  split at h
  · cases h
    cases hd
    exact depth_errors _
  · cases h

/-- The document that a dry run shows is the only thing in its answer that may be nested deeply. -/
theorem depth_simulationAnswer (trace : String) (x : Simulation) :
    (simulationAnswer trace x).depth ≤ Excess.responseDepth + 1 ↔
      ∀ doc, x.newDocument = some doc → (Value.obj doc).depth ≤ Excess.responseDepth := by
  rw [simulationAnswer, Value.depth_obj_le_iff]
  constructor
  · intro h doc hdoc
    have hshown := h ("previewDocument", .ofOption .obj x.newDocument) (by simp [simulationMembers])
    rw [hdoc] at hshown
    exact hshown
  · intro h m hm
    have hshallow : ∀ {v : Value}, v.depth ≤ 6 → v.depth ≤ Excess.responseDepth := fun hv =>
      Nat.le_trans hv (by decide)
    have hscalar : ∀ {v : Value}, v.isCollection = false → v.depth ≤ Excess.responseDepth := fun hv =>
      Value.depth_le_of_scalar hv (by decide)
    have hstrings : ∀ ss, (Value.ofStrings ss).depth ≤ Excess.responseDepth := fun ss =>
      hshallow (Nat.le_trans (Value.depth_ofStrings ss) (by decide))
    simp only [simulationMembers, List.mem_append, List.mem_cons, List.not_mem_nil, or_false] at hm
    obtain ((rfl | rfl) | rfl | rfl | rfl | rfl | rfl | rfl | rfl | rfl) | hm := hm
    · exact hscalar rfl
    · exact hscalar rfl
    · exact hscalar rfl
    · exact hshallow (Nat.le_trans (depth_issues _) (by decide))
    · exact hstrings _
    · cases hdoc : x.newDocument with
      | none => exact hscalar rfl
      | some doc => exact h doc hdoc
    · exact hstrings _
    · cases hpreview : x.preview with
      | none => exact hscalar rfl
      | some preview =>
        have htabs := Value.depth_ofStrings preview.tabs
        refine hshallow ?_
        simp only [Value.ofOption, Preview.toValue, Value.depth, Value.depthOfMembers, Value.ofNat]
        omega
    · exact hscalar rfl
    · exact hscalar rfl
    · split at hm
      · rename_i f hf
        obtain rfl := List.mem_singleton.1 hm
        exact hshallow (depth_firstIssue hf)
      · cases hm

/-- A failure can be encoded where its message and its details can be. -/
theorem isEncodable_failure {f : Failure} (hmessage : isEncodable f.message = true)
    (hdetails : ∀ d, f.details = some d → d.isEncodable = true) : f.toValue.isEncodable = true := by
  have hkeys : isEncodable "code" = true ∧ isEncodable "message" = true ∧
      isEncodable "details" = true := by decide
  have hcode : isEncodable f.code.text = true := by cases f.code <;> decide
  rw [Failure.toValue, Value.isEncodable, Value.areEncodableMembers_append]
  cases hd : f.details with
  | none => simp [Value.areEncodableMembers, Value.isEncodable, hkeys, hcode, hmessage]
  | some d =>
    simp [Value.areEncodableMembers, Value.isEncodable, hkeys, hcode, hmessage, hdetails d hd]

theorem isEncodable_firstIssue {x : Simulation} {f : Failure} (h : firstIssue? x = some f)
    (hx : Value.areEncodableMembers (simulationMembers x) = true) : f.toValue.isEncodable = true := by
  have hissues : (Value.arr (x.issues.map (·.toValue))).isEncodable = true :=
    (Value.areEncodableMembers_iff.1 hx ("errors", .arr (x.issues.map (·.toValue)))
      (by simp [simulationMembers])).2
  rw [firstIssue?] at h
  split at h
  · rename_i first rest _ hfirst
    obtain rfl := Option.some.inj h
    have hissue : first.toValue.isEncodable = true :=
      Value.isEncodable_arr_iff.1 hissues _ (by simp [hfirst])
    refine isEncodable_failure ?_ fun d hd => ?_
    · exact (Value.isEncodable_obj_iff.1 hissue ("message", .str first.message)
        (by simp)).2
    · obtain rfl := Option.some.inj hd
      have hkey : isEncodable "errors" = true := by decide
      exact Value.isEncodable_obj_iff.2 (List.forall_mem_singleton.2 ⟨hkey, hissues⟩)
  · cases h

/-- The answer to a dry run adds no text to those of the dry run that could not be encoded. -/
theorem isEncodable_simulationAnswer {trace : String} (htrace : isEncodable trace = true)
    (x : Simulation) : (simulationAnswer trace x).isEncodable = true ↔
      Value.areEncodableMembers (simulationMembers x) = true := by
  rw [simulationAnswer, Value.isEncodable, Value.areEncodableMembers_append,
    Value.areEncodableMembers_append]
  refine ⟨fun h => h.1.2, fun h => ⟨⟨areEncodableMembers_front htrace x.valid, h⟩, ?_⟩⟩
  split
  · rename_i f hf
    have hkey : isEncodable "error" = true := by decide
    exact Value.areEncodableMembers_iff.2 (List.forall_mem_singleton.2
      ⟨hkey, isEncodable_firstIssue hf h⟩)
  · rfl

theorem shown_iff {trace : String} (htrace : isEncodable trace = true) (x : Simulation) :
    x.Shown ↔ (simulationAnswer trace x).depth ≤ Excess.responseDepth + 1 ∧
      (simulationAnswer trace x).isEncodable = true := by
  rw [depth_simulationAnswer, isEncodable_simulationAnswer htrace]
  exact ⟨fun h => ⟨h.shallow, h.encodable⟩, fun h => ⟨h.1, h.2⟩⟩

theorem depth_noSimulation (trace : String) (f : Fault) :
    (noSimulation trace f).depth ≤ Excess.responseDepth + 1 := by
  have hfailure : (simulationFailure f).toValue.depth ≤ 6 := by
    refine depth_failure (n := 5) fun d hd => ?_
    cases f with
    | rejected issues =>
      cases issues with
      | nil => cases hd
      | cons first rest =>
        cases hd
        exact depth_errors _
    | unknownDashboard | unknownVersion | takenId | stale =>
      cases hd
      exact show 2 ≤ 5 by decide
    | _ => cases hd
  have hroom : 6 ≤ Excess.responseDepth := by decide
  simp only [noSimulation, Value.depth, Value.depthOfMembers]
  omega

namespace InsightsBody

variable {b : InsightsBody}

theorem depth_showFinding (b : InsightsBody) (x : Insights.Finding Float) :
    (b.showFinding x).depth ≤ 4 := by
  refine Value.depth_obj_le_iff.2 fun m hm => ?_
  rcases List.mem_append.1 hm with hm | hm
  · exact Insights.depth_finding x m hm
  · obtain rfl := List.mem_singleton.1 hm
    exact Insights.depth_trace x _ _

theorem depth_showMetrics (metrics : Members Number) : (showMetrics metrics).depth ≤ 2 := by
  rw [showMetrics, Value.depth_finiteOnly]
  refine Value.depth_obj_le_iff.2 fun m hm => ?_
  obtain ⟨⟨key, n⟩, -, rfl⟩ := List.mem_map.1 hm
  exact Nat.le_refl 1

/-- Metrics as given or of rows within the range of floats are floats. -/
theorem yields_metricsOf (given : Option (Members Float)) {rows : List Integrity.Record}
    (h : Integrity.RecordsFit rows) : Yields (metricsOf given rows) Floats := by
  cases given with
  | none => exact h.rowsFit.aggregate
  | some metrics =>
    refine .pure fun m hm => ?_
    obtain ⟨⟨key, x⟩, -, rfl⟩ := List.mem_map.1 hm
    exact ⟨x, rfl⟩

theorem yields_earlierMetrics
    (h : b.previousMetrics = none → Integrity.RecordsFit (b.previousRows.getD [])) :
    Yields b.earlierMetrics fun _ => True := by
  have hgiven : Yields (some <$> metricsOf b.previousMetrics (b.previousRows.getD []))
      fun _ => True := by
    cases hmetrics : b.previousMetrics with
    | none => exact (yields_metricsOf none (h hmetrics)).map fun _ _ => trivial
    | some metrics => exact .pure trivial
  rw [earlierMetrics]
  split
  · exact .pure trivial
  · exact hgiven

/-- Data within the range of floats are checked against their metrics, and the answer says whether
they are valid. -/
theorem draw_eq_ok {s : Settings} {config : Integrity.Config} (trace : String)
    (hrows : Integrity.RecordsFit b.rows)
    (hearlier : b.previousMetrics = none → Integrity.RecordsFit (b.previousRows.getD []))
    (hconfig : b.checking s = .good config) :
    ∃ current report v, b.currentMetrics = .ok current ∧
      Integrity.validate b.rows (current.mapValues .num) config = .ok report ∧
      b.draw s trace = .ok v ∧ v.member? "ok" = some (.bool report.valid) ∧ v.depth ≤ 8 := by
  obtain ⟨current, hcurrent, hfloats⟩ := yields_metricsOf b.metrics hrows
  obtain ⟨previous, hprevious, -⟩ := yields_earlierMetrics hearlier
  obtain ⟨report, hreport, hshallow⟩ := Integrity.yields_validate hrows hfloats config
  have hdraw := draw.eq_def b s trace
  rw [currentMetrics, hcurrent, hprevious, hconfig] at hdraw
  dsimp only [Except.mapError, Shape.Checked.toExcept, bind, Except.bind] at hdraw
  rw [hreport] at hdraw
  refine ⟨current, report, _, hcurrent, hreport, hdraw, rfl, ?_⟩
  refine Value.depth_obj_le_iff.2 fun m hm => ?_
  simp only [List.mem_append, List.mem_cons, List.not_mem_nil, or_false] at hm
  obtain (rfl | rfl | rfl | rfl | rfl | rfl) | hm := hm
  · exact show 1 ≤ 7 by decide
  · exact show 1 ≤ 7 by decide
  · exact Integrity.depth_report hshallow
  · refine Value.depth_arr_le_iff.2 fun v hv => ?_
    obtain ⟨x, -, rfl⟩ := List.mem_map.1 hv
    exact Nat.le_trans (b.depth_showFinding x) (by decide)
  · exact Nat.le_trans (depth_showMetrics current) (by decide)
  · cases previous with
    | none => exact show 1 ≤ 7 by decide
    | some metrics => exact Nat.le_trans (depth_showMetrics metrics) (by decide)
  · split at hm
    · cases hm
    · obtain rfl := List.mem_singleton.1 hm
      exact show 2 ≤ 7 by decide

end InsightsBody

/-! ## 3. Requests -/

/-- A request that is let in, its budget included, and sets a task. -/
def State.LetsIn (s : State) (now : Float) (r : Request) (task : Task) : Prop :=
  ∃ route content, lead r.method r.target = .route route ∧
    contentFor route r = .ok content ∧ Task.read route r.target content = .good task ∧
    ((s.trace r).2.admission now route.needs r.caller).1 = none

section Requests

variable {s : State} {now : Float} {r : Request} {task : Task}

theorem State.LetsIn.receive_eq (h : s.LetsIn now r task) :
    (s.receive now r).1 = answer s.settings r.caller (s.trace r).1 task := by
  obtain ⟨route, content, hlead, hcontent, hread, hadmitted⟩ := h
  have hadmission : (s.trace r).2.admission now route.needs r.caller =
      (none, ((s.trace r).2.admission now route.needs r.caller).2) := Prod.ext hadmitted rfl
  have hsettings := (State.unmet?_of_admission hadmission).2
  rw [State.receive_eq_answer hlead hcontent hadmission hread, hsettings, State.settings_trace]

variable {σ : Type} (respond : (e : Errand) → σ → e.Reply × σ) (w : σ)

/-- A dry run is answered, whether it could be made or not. -/
theorem State.LetsIn.run_simulate {id : String} {b : SimulateBody}
    (h : s.LetsIn now r (.simulate id b)) :
    ((s.receive now r).1.run respond w).1 =
      .json (s.trace r).1 200 (match ((withArchive (simulate s.settings id b)).run respond w).1 with
        | .ok simulation => simulationAnswer (s.trace r).1 simulation
        | .error fault => noSimulation (s.trace r).1 fault) := by
  rw [h.receive_eq, answer, Dialogue.run_bind, perform_simulate]
  rfl

theorem State.LetsIn.run_insights {b : InsightsBody} (h : s.LetsIn now r (.insights b)) :
    ((s.receive now r).1.run respond w).1 =
      match b.draw s.settings (s.trace r).1 with
      | .ok v => .json (s.trace r).1 200 v
      | .error f => .failure (s.trace r).1 f := by
  have hperform : perform s.settings r.caller (s.trace r).1 (.insights b) =
      Response.json (s.trace r).1 200 <$> ofExcept (b.draw s.settings (s.trace r).1) := rfl
  rw [h.receive_eq, answer, Dialogue.run_bind, hperform, Dialogue.run_mapResult]
  cases b.draw s.settings (s.trace r).1 <;> rfl

/-- The answer to a dry run that could not be made can be encoded where its failure can be. -/
theorem isEncodable_noSimulation {trace : String} (htrace : isEncodable trace = true) (f : Fault) :
    (noSimulation trace f).isEncodable = true ↔ (simulationFailure f).toValue.isEncodable = true := by
  have hkeys : isEncodable "ok" = true ∧ isEncodable "traceId" = true ∧ isEncodable "valid" = true ∧
      isEncodable "error" = true := by decide
  simp [noSimulation, Value.isEncodable, Value.areEncodableMembers, htrace, hkeys]

/-- A request that is let in to try a patch is told whether the patch is accepted, unless the
document that it would lead to is nested too deeply to be shown or a text in the answer cannot be
encoded; and a request for insights is told whether its data are valid, where they are within the range
of floats, there is a way to check them and the texts in the answer can be encoded. -/
theorem verdict_of_letsIn (s : State) (now : Float) (r : Request) :
    let response := ((s.receive now r).1.run respond w).1
    (∀ id b, s.LetsIn now r (.simulate id b) →
      match ((withArchive (simulate s.settings id b)).run respond w).1 with
      | .ok simulation => (simulation.Shown → response.Says simulation.valid) ∧
          (¬simulation.Shown → response.status = 500)
      | .error fault =>
          ((simulationFailure fault).toValue.isEncodable = true → response.Says false) ∧
          ((simulationFailure fault).toValue.isEncodable = false → response.status = 500)) ∧
    (∀ b config, s.LetsIn now r (.insights b) → Integrity.RecordsFit b.rows →
      (b.previousMetrics = none → Integrity.RecordsFit (b.previousRows.getD [])) →
      b.checking s.settings = .good config →
      ∃ current report v, b.currentMetrics = .ok current ∧
        Integrity.validate b.rows (current.mapValues .num) config = .ok report ∧
        b.draw s.settings (s.trace r).1 = .ok v ∧
        (v.isEncodable = true → response.Says report.valid) ∧
        (v.isEncodable = false → response.status = 500)) := by
  intro response
  have htrace := s.isEncodable_trace r
  refine ⟨fun id b hin => ?_, fun b config hin hrows hearlier hconfig => ?_⟩
  · have hresponse : response = _ := hin.run_simulate respond w
    rw [hresponse]
    cases ((withArchive (simulate s.settings id b)).run respond w).1 with
    | ok simulation =>
      obtain ⟨hsent, hfailed⟩ := Response.json_cases (s.trace r).1
        (simulationAnswer (s.trace r).1 simulation)
      refine ⟨fun hshown => ?_, fun hunshown => hfailed fun h => hunshown ((shown_iff htrace _).2 h)⟩
      obtain ⟨hdepth, hencodable⟩ := (shown_iff htrace simulation).1 hshown
      exact hsent hdepth hencodable _ rfl
    | error fault =>
      obtain ⟨hsent, hfailed⟩ := Response.json_cases (s.trace r).1
        (noSimulation (s.trace r).1 fault)
      have hencodable := isEncodable_noSimulation htrace fault
      refine ⟨fun hfault => hsent (depth_noSimulation _ fault) (hencodable.2 hfault) _ rfl,
        fun hfault => hfailed fun h => ?_⟩
      rw [hencodable.1 h.2] at hfault
      cases hfault
  · obtain ⟨current, report, v, hcurrent, hreport, hdraw, hok, hdepth⟩ :=
      InsightsBody.draw_eq_ok (s.trace r).1 hrows hearlier hconfig
    have hresponse : response = _ := hin.run_insights respond w
    rw [hdraw] at hresponse
    obtain ⟨hsent, hfailed⟩ := Response.json_cases (s.trace r).1 v
    refine ⟨current, report, v, hcurrent, hreport, hdraw, fun hencodable => ?_, fun hhalf => ?_⟩
    · exact hresponse ▸ hsent (Nat.le_trans hdepth (by decide)) hencodable _ hok
    · refine hresponse ▸ hfailed fun h => ?_
      rw [hhalf] at h
      cases h.2

end Requests

/-- A request to try an empty list of charts for a dashboard. -/
def chartsRequest : Request where
  method := "POST"
  target := ⟨pathOf ["", "dashboards", "leads", "simulate"], []⟩
  headers := []
  body := Octets.encoded ("\x7b\"currentVersion\": 1, \"operations\": " ++
    "[\x7b\"op\": \"add\", \"path\": \"/charts\", \"value\": []\x7d]\x7d")

def chartsBody : SimulateBody := ⟨1, [⟨.add, "/charts", .arr [], none⟩]⟩

theorem content_chartsRequest : chartsRequest.content = .ok (.json (.obj [("currentVersion", .ofInt 1),
    ("operations", .arr [.obj [("op", .str "add"), ("path", .str "/charts"), ("value", .arr [])]])])) := by
  have htext : ("\x7b\"currentVersion\": 1, \"operations\": " ++
      "[\x7b\"op\": \"add\", \"path\": \"/charts\", \"value\": []\x7d]\x7d").toList =
        '\x7b' :: '"' :: ("currentVersion\": 1, \"operations\": " ++
      "[\x7b\"op\": \"add\", \"path\": \"/charts\", \"value\": []\x7d]\x7d").toList := by decide
  exact Request.content_of_text rfl rfl htext (by decide) (by decide) (by with_unfolding_all rfl)

theorem letsIn_chartsRequest :
    openService.LetsIn 0 chartsRequest (.simulate "leads" chartsBody) := by
  refine ⟨.simulate "leads", _, ?_, content_chartsRequest, rfl, rfl⟩
  rw [lead, chartsRequest, segments_pathOf (by decide) (by decide)]
  decide +kernel

/-- What a body asks for that has these rows and leaves out all that may be left out. -/
def bodyOfRows (rows : List Integrity.Record) : InsightsBody :=
  ⟨rows, none, none, none, ⟨⟨2024, 6, 1⟩, ⟨2024, 6, 30⟩⟩, none, InsightsBody.defaultSource⟩

theorem lead_insights : lead "POST" ⟨pathOf ["", "insights"], []⟩ = .route .insights := by
  rw [lead, segments_pathOf (by decide) (by decide)]
  decide +kernel

/-- A row with one integer in it. -/
def leadsRow (n : Int) : Integrity.Record := [("leads", .ofInt n)]

def leadsMembers (n : Int) : Members Value :=
  [("rows", .arr [.obj (leadsRow n)]),
   ("dateRange", .obj [("start", .str "2024-06-01"), ("end", .str "2024-06-30")])]

/-- A request for insights from that row. -/
def leadsRequest (n : Int) : Request where
  method := "POST"
  target := ⟨pathOf ["", "insights"], []⟩
  headers := []
  body := Octets.encoded (Json.line (.spaced true) (.obj (leadsMembers n)))

theorem letsIn_leadsRequest {n : Int} (h : (Number.int n).Short) :
    openService.LetsIn 0 (leadsRequest n) (.insights (bodyOfRows [leadsRow n])) := by
  have hcontent : (leadsRequest n).content = .ok (.json (.obj (leadsMembers n))) := by
    have hrow : (Value.obj (leadsRow n)).Legible 983 :=
      .obj (List.nodup_singleton _) (List.forall_mem_singleton.2 (.scalar h))
    have hdays : (Value.obj [("start", .str "2024-06-01"), ("end", .str "2024-06-30")]).Legible 984 :=
      .obj (by decide) (List.forall_mem_cons.2
        ⟨.scalar trivial, List.forall_mem_singleton.2 (.scalar trivial)⟩)
    have hkeys : (leadsMembers n).keys.Nodup := show ["rows", "dateRange"].Nodup by decide
    refine Request.content_of_line rfl rfl (.obj hkeys (List.forall_mem_cons.2
      ⟨.arr (List.forall_mem_singleton.2 hrow), List.forall_mem_singleton.2 hdays⟩)) ?_
    exact ⟨hkeys, ⟨⟨List.nodup_singleton _, rfl, trivial⟩, trivial⟩,
      ⟨by decide, trivial, trivial, trivial⟩, trivial⟩
  refine ⟨.insights, .json (.obj (leadsMembers n)), lead_insights, hcontent, ?_, rfl⟩
  with_unfolding_all rfl

/-- An empty list of charts is accepted, and one row is too few. -/
theorem verdict_of_charts_and_leads :
    ((openService.receive 0 chartsRequest).1.run (carry Registry.respond unreached)
      (otherDashboard, ())).1.Says true ∧
    ((openService.receive 0 (leadsRequest 5)).1.run (carry Registry.respond unreached)
      (otherDashboard, ())).1.Says false := by
  constructor
  · have hdry : (((withArchive (simulate openService.settings "leads" chartsBody)).run
        (carry Registry.respond unreached) (otherDashboard, ())).1.toOption.map fun x =>
          (x.valid, decide x.Shown)) = some (true, true) := by decide +kernel
    revert hdry
    generalize carry Registry.respond unreached = respond
    intro hdry
    have htrial := (verdict_of_letsIn respond (otherDashboard, ()) openService 0 chartsRequest).1 _ _
      letsIn_chartsRequest
    split at htrial
    · rename_i x hx
      rw [hx] at hdry
      obtain ⟨hvalid, hshown⟩ := Prod.mk.inj (Option.some.inj hdry)
      exact hvalid ▸ htrial.1 (of_decide_eq_true hshown)
    · rename_i hfault
      rw [hfault] at hdry
      cases hdry
  · have hshort : (Number.int 5).Short :=
      show (Nat.toDigits 10 5).length ≤ Excess.digitLimit by decide
    have hin := letsIn_leadsRequest hshort
    have hrows : Integrity.RecordsFit [leadsRow 5] := by
      intro row hrow m hm n hn
      obtain rfl := List.mem_singleton.1 hrow
      obtain rfl := List.mem_singleton.1 hm
      cases hn
      exact Number.fits_int (by decide +kernel)
    have hnone : Integrity.RecordsFit [] := fun row hrow => absurd hrow List.not_mem_nil
    obtain ⟨current, report, v, hcurrent, hreport, hdraw, hsays, -⟩ :=
      (verdict_of_letsIn (carry Registry.respond unreached) (otherDashboard, ()) openService 0
        (leadsRequest 5)).2 _ .default hin hrows (fun _ => hnone) rfl
    have hencodable : v.isEncodable = true := by
      have hall : ((bodyOfRows [leadsRow 5]).draw openService.settings (traceText 0)).toOption.map
          (·.isEncodable) = some true := by decide +kernel
      change (bodyOfRows [leadsRow 5]).draw openService.settings (traceText 0) = _ at hdraw
      rw [hdraw] at hall
      exact Option.some.inj hall
    have hfew : ((bodyOfRows [leadsRow 5]).currentMetrics >>= fun current =>
        (Integrity.validate (bodyOfRows [leadsRow 5]).rows (current.mapValues .num) .default).map
          (·.valid)) = .ok false := by decide +kernel
    rw [hcurrent] at hfew
    change (Integrity.validate _ (current.mapValues .num) _).map _ = _ at hfew
    rw [hreport] at hfew
    exact Except.ok.inj hfew ▸ hsays hencodable

/-! ## 4. An integer beyond the range of floats -/

/-- Where the metrics of the rows cannot be calculated, there is no verdict on the data. -/
theorem State.LetsIn.status_of_metrics {σ : Type} (respond : (e : Errand) → σ → e.Reply × σ) (w : σ)
    {s : State} {now : Float} {r : Request} {b : InsightsBody} (h : s.LetsIn now r (.insights b))
    {e : ArithmeticFault} (herror : b.currentMetrics = .error e) :
    ((s.receive now r).1.run respond w).1.status = 500 := by
  have hdraw : b.draw s.settings (s.trace r).1 = .error internalFailure := by
    rw [InsightsBody.draw, herror]
    rfl
  rw [h.run_insights, hdraw]
  rfl

/-- With an integer of 401 digits, a request is let in that fails. -/
theorem failed_leadsRequest :
    openService.LetsIn 0 (leadsRequest (10 ^ 400)) (.insights (bodyOfRows [leadsRow (10 ^ 400)])) ∧
    ((openService.receive 0 (leadsRequest (10 ^ 400))).1.run (carry Registry.respond unreached)
      (Registry.empty ⟨0⟩, ())).1.status = 500 := by
  have hsize : ∀ {k digits : Nat}, k < digits → (10 ^ k : Int).natAbs < 10 ^ digits := by
    intro k digits hk
    rw [Int.natAbs_pow]
    exact Nat.pow_lt_pow_right (by decide) hk
  have hshort : (Number.int (10 ^ 400)).Short :=
    (Nat.length_toDigits_le_iff (by decide) (by decide)).2 (hsize (by decide))
  have hin := letsIn_leadsRequest hshort
  have hfails : (bodyOfRows [leadsRow (10 ^ 400)]).currentMetrics.toBool = false := by decide +kernel
  refine ⟨hin, ?_⟩
  cases hmetrics : (bodyOfRows [leadsRow (10 ^ 400)]).currentMetrics with
  | error e => exact hin.status_of_metrics _ _ hmetrics
  | ok metrics => rw [hmetrics] at hfails; cases hfails

end Service

end Dashboards
