import Dashboards.Simulation
import Dashboards.Proofs.Policy.Objections

/-!
# Valid simulations

A simulation that is valid vouches for a patch: it was made for the current version, the policy
accepted it, and the new document is what applying it left.  A simulation that is not valid says why,
and it is stale exactly if the patch was made for another version.
-/

namespace Dashboards

namespace EditRules

variable {rules : EditRules} {doc : Document} {version expected : Int} {ops : List Operation}

/-! ## 1. How a simulation ends -/

theorem simulate_of_ne (h : expected ≠ version) :
    rules.simulate doc version expected ops =
      .refused doc version [⟨.staleVersion expected version, none, none⟩] [] := if_pos h

/-- A patch that is refused for the current version is refused with the issues of its application,
which repeats the checks that were made before it. -/
theorem simulate_of_refused
    (h : (Patch.apply (some rules.policy) (.obj doc) ops).applied = false) :
    rules.simulate doc version version ops =
      .refused doc version (Patch.apply (some rules.policy) (.obj doc) ops).issues [] := by
  have hcurrent : ¬ version ≠ version := fun hne => hne rfl
  unfold Patch.apply at h ⊢
  dsimp only at h ⊢
  rw [simulate, if_neg hcurrent]
  cases hcheck : rules.policy.checkInTurn 0 (.obj doc) ops with
  | nil => exact if_neg (Bool.eq_false_iff.1 h)
  | cons issue issues =>
    rw [Patch.applyUnder, hcheck]
    rfl

/-- A patch that is accepted for the current version is judged by the document it leaves. -/
theorem simulate_of_applied
    (h : (Patch.apply (some rules.policy) (.obj doc) ops).applied = true) :
    rules.simulate doc version version ops =
      rules.judge doc version ops (Patch.apply (some rules.policy) (.obj doc) ops).document := by
  have hcurrent : ¬ version ≠ version := fun hne => hne rfl
  unfold Patch.apply at h ⊢
  dsimp only at h ⊢
  rw [simulate, if_neg hcurrent]
  cases hcheck : rules.policy.checkInTurn 0 (.obj doc) ops with
  | nil => exact if_pos h
  | cons issue issues =>
    rw [Patch.applyUnder, hcheck] at h
    cases h

/-! ## 2. Verdicts -/

/-- A patch is judged valid only where it left an object, which becomes the new document. -/
theorem judge_valid {patched : Value} (h : (rules.judge doc version ops patched).valid = true) :
    ∃ new, patched = .obj new ∧ (rules.judge doc version ops patched).newDocument = some new := by
  cases patched with
  | obj new => exact ⟨new, rfl, rfl⟩
  | _ => cases h

theorem simulate_valid (h : (rules.simulate doc version expected ops).valid = true) :
    expected = version ∧ ∃ new, (rules.simulate doc version expected ops).newDocument = some new ∧
      (Patch.applyUnder rules.policy (.obj doc) ops).applied = true ∧
      (Patch.applyUnder rules.policy (.obj doc) ops).document = .obj new := by
  by_cases hversion : expected = version
  · subst hversion
    cases happlied : (Patch.apply (some rules.policy) (.obj doc) ops).applied with
    | false =>
      rw [simulate_of_refused happlied] at h
      cases h
    | true =>
      rw [simulate_of_applied happlied] at h ⊢
      obtain ⟨new, hpatched, hnew⟩ := judge_valid h
      exact ⟨rfl, new, hnew, happlied, hpatched⟩
  · rw [simulate_of_ne hversion] at h
    cases h

theorem currentVersion_simulate (rules : EditRules) (doc : Document) (version expected : Int)
    (ops : List Operation) : (rules.simulate doc version expected ops).currentVersion = version := by
  unfold simulate
  split
  · rfl
  · split
    · dsimp only
      split
      · unfold judge
        split <;> rfl
      · rfl
    · rfl

theorem issues_judge (rules : EditRules) (doc : Document) (version : Int) (ops : List Operation)
    (patched : Value) : (rules.judge doc version ops patched).issues =
      structureIssues (validateStructure patched rules.detailsTab) := by
  cases patched <;> rfl

/-- The issues of a document's structure are why it is not valid. -/
theorem judge_cases (rules : EditRules) (doc : Document) (version : Int) (ops : List Operation)
    (patched : Value) :
    ((rules.judge doc version ops patched).valid = true ↔
        (rules.judge doc version ops patched).issues = []) ∧
      ∀ i ∈ (rules.judge doc version ops patched).issues, i.objection.Timeless := by
  constructor
  · cases patched with
    | obj new => exact List.isEmpty_iff
    | _ => exact ⟨nofun, nofun⟩
  · intro i hi
    rw [issues_judge] at hi
    obtain ⟨message, -, rfl⟩ := List.mem_map.1 hi
    exact nofun

/-- A simulation for the current version is valid exactly if it has no issues, and none of its issues
is about the version. -/
theorem simulate_cases (rules : EditRules) (doc : Document) (version : Int) (ops : List Operation) :
    ((rules.simulate doc version version ops).valid = true ↔
        (rules.simulate doc version version ops).issues = []) ∧
      ∀ i ∈ (rules.simulate doc version version ops).issues, i.objection.Timeless := by
  cases happlied : (Patch.apply (some rules.policy) (.obj doc) ops).applied with
  | false =>
    obtain ⟨hne, htimeless⟩ := Patch.issues_of_not_applied happlied
    rw [simulate_of_refused happlied]
    exact ⟨⟨nofun, fun hissues => absurd hissues hne⟩, htimeless⟩
  | true =>
    rw [simulate_of_applied happlied]
    exact judge_cases rules doc version ops _

/-- Valid means without an issue, also for a patch that was made for another version. -/
theorem valid_simulate_iff (rules : EditRules) (doc : Document) (version expected : Int)
    (ops : List Operation) : (rules.simulate doc version expected ops).valid = true ↔
      (rules.simulate doc version expected ops).issues = [] := by
  by_cases hversion : expected = version
  · subst hversion
    exact (simulate_cases rules doc expected ops).1
  · rw [simulate_of_ne hversion]
    exact ⟨nofun, nofun⟩

/-- Issues that are not about the version do not make a simulation stale. -/
theorem not_isStale {s : Simulation} (h : ∀ i ∈ s.issues, i.objection.Timeless) :
    s.isStale = false := by
  rw [Simulation.isStale, List.any_eq_false]
  intro i hi hstale
  exact (h i hi).code_ne (of_decide_eq_true hstale)

/-! ## 3. The report of a simulation -/

/-- How a simulation reports on the steps it is made of: the comparison of the versions, the
application of the patch under the policy, and the look at the structure of what that left. -/
structure Reports (rules : EditRules) (version expected : Int) (applied : Patch.Result)
    (s : Simulation) : Prop where
  valid : s.valid = true ↔ s.issues = []
  /-- A simulation that is not valid has a first issue, which its refusal is reported by. -/
  refused : s.valid = false → ∃ first rest, s.issues = first :: rest
  /-- A patch that was made for another version has one issue, the conflict of the versions. -/
  stale : expected ≠ version → ∃ issue, s.issues = [issue] ∧ issue.code = .versionConflict ∧
    issue.objection = .staleVersion expected version
  /-- The issues of a patch that does not apply are those of its application. -/
  failed : expected = version → applied.applied = false → s.issues = applied.issues
  /-- The issues of a patch that applies are those of the structure of its document. -/
  structural : expected = version → applied.applied = true →
    s.issues = (validateStructure applied.document rules.detailsTab).errors.map
      fun message => ⟨.malformed message, none, none⟩
  /-- There is a new document exactly if the patch applied and left an object, which then is it. -/
  newDocument : ∀ new, s.newDocument = some new ↔
    expected = version ∧ applied.applied = true ∧ applied.document = .obj new
  /-- The figures of the new document come with it. -/
  preview : s.preview = s.newDocument.map fun new => Preview.ofDocument (.obj new)

/-- Whatever a patch is and whatever it leaves, its simulation reports on the one application of the
patch: the checks that are made twice do not disagree, and no simulation is refused without a
reason. -/
theorem simulate_reports (rules : EditRules) (doc : Document) (version expected : Int)
    (ops : List Operation) :
    rules.Reports version expected (Patch.apply (some rules.policy) (.obj doc) ops)
      (rules.simulate doc version expected ops) := by
  have hvalid := valid_simulate_iff rules doc version expected ops
  have hrefused : (rules.simulate doc version expected ops).valid = false →
      ∃ first rest, (rules.simulate doc version expected ops).issues = first :: rest := by
    intro hnot
    refine List.exists_cons_of_ne_nil fun hissues => ?_
    exact absurd (hvalid.2 hissues) (Bool.eq_false_iff.1 hnot)
  by_cases hversion : expected = version
  · subst hversion
    cases happlied : (Patch.apply (some rules.policy) (.obj doc) ops).applied with
    | false =>
      have hsimulate : rules.simulate doc expected expected ops = _ := simulate_of_refused happlied
      exact
        { valid := hvalid
          refused := hrefused
          stale := fun hne => absurd rfl hne
          failed := fun _ _ => by rw [hsimulate]; rfl
          structural := fun _ happlies => absurd (happlied.symm.trans happlies) nofun
          newDocument := fun new => by
            rw [hsimulate, happlied]
            exact ⟨nofun, nofun⟩
          preview := by rw [hsimulate]; rfl }
    | true =>
      have hsimulate : rules.simulate doc expected expected ops = _ := simulate_of_applied happlied
      refine
        { valid := hvalid
          refused := hrefused
          stale := fun hne => absurd rfl hne
          failed := fun _ hnot => absurd (happlied.symm.trans hnot) nofun
          structural := fun _ _ => ?_
          newDocument := fun new => ?_
          preview := ?_ }
      · rw [hsimulate]
        exact issues_judge rules doc expected ops _
      -- The root of what the patch left decides whether there is a new document.
      all_goals
        rw [hsimulate]
        cases (Patch.apply (some rules.policy) (.obj doc) ops).document with
        | obj members => simp [judge, happlied]
        | _ => simp [judge, Simulation.refused]
  · have hsimulate : rules.simulate doc version expected ops = _ := simulate_of_ne hversion
    exact
      { valid := hvalid
        refused := hrefused
        stale := fun _ => ⟨_, by rw [hsimulate]; rfl, rfl, rfl⟩
        failed := fun heq => absurd heq hversion
        structural := fun heq => absurd heq hversion
        newDocument := fun new => by
          rw [hsimulate]
          exact ⟨nofun, fun hnew => absurd hnew.1 hversion⟩
        preview := by rw [hsimulate]; rfl }

/-- A list in the place of the whole document applies, but leaves no new document. -/
example :
    let s := (⟨.default, 5, none⟩ : EditRules).simulate [] 1 1 [⟨.replace, "", .arr [], none⟩]
    s.newDocument.isNone ∧ s.preview.isNone ∧
      s.issues = [⟨.malformed "Dashboard document must be an object, got list", none, none⟩] :=
  ⟨rfl, rfl, rfl⟩

end EditRules

end Dashboards
