import Dashboards.Proofs.Insights.Bottleneck
import Dashboards.Proofs.Outcomes

/-!
# Rules side by side

What a catalog of rules reports is put together from what each rule finds on its own.  The findings are
ordered by priority, and those of one priority stay in the order of the catalog; so a rule that fails
leaves no trace, and the findings of rules that are not run are missing while nothing else changes.
This holds of any rules.  A configuration that disables rules is handed to the others as well, of which
those of the program's own catalog do not look at it.
-/

namespace Dashboards

namespace Insights

variable {α : Type}

/-! ## 1. Ordered by priority -/

theorem Priority.rank_inj {p q : Priority} (h : p.rank = q.rank) : p = q := by
  revert h
  cases p <;> cases q <;> decide

/-- Findings of which none comes before a more severe one. -/
def Ordered (xs : List (Finding α)) : Prop :=
  xs.Pairwise fun x y => x.priority.rank ≤ y.priority.rank

/-- Findings ordered by priority, those of one priority in the order in which they were. -/
def ranked (xs : List (Finding α)) : List (Finding α) :=
  xs.mergeSort fun x y => x.priority.rank ≤ y.priority.rank

theorem perm_ranked (xs : List (Finding α)) : (ranked xs).Perm xs := List.mergeSort_perm ..

theorem rank_le_trans (x y z : Finding α) (hxy : decide (x.priority.rank ≤ y.priority.rank) = true)
    (hyz : decide (y.priority.rank ≤ z.priority.rank) = true) :
    decide (x.priority.rank ≤ z.priority.rank) = true :=
  decide_eq_true ((of_decide_eq_true hxy).trans (of_decide_eq_true hyz))

theorem rank_le_total (x y : Finding α) :
    (decide (x.priority.rank ≤ y.priority.rank) || decide (y.priority.rank ≤ x.priority.rank)) = true := by
  simpa using le_total x.priority.rank y.priority.rank

theorem ordered_ranked (xs : List (Finding α)) : Ordered (ranked xs) :=
  (List.pairwise_mergeSort rank_le_trans rank_le_total xs).imp of_decide_eq_true

/-- Findings of one priority stay as they are. -/
theorem filter_priority_ranked (p : Priority) (xs : List (Finding α)) :
    (ranked xs).filter (fun x => x.priority = p) = xs.filter fun x => x.priority = p := by
  have hequal : (xs.filter fun x => x.priority = p).Pairwise fun x y =>
      decide (x.priority.rank ≤ y.priority.rank) = true := by
    refine List.pairwise_of_forall_mem_list fun x hx y hy => decide_eq_true ?_
    rw [of_decide_eq_true (List.mem_filter.1 hx).2, of_decide_eq_true (List.mem_filter.1 hy).2]
  have hsub : (xs.filter fun x => x.priority = p).Sublist (ranked xs) :=
    List.sublist_mergeSort rank_le_trans rank_le_total hequal List.filter_sublist
  have hsub := hsub.filter fun x => decide (x.priority = p)
  rw [List.filter_filter] at hsub
  simp only [Bool.and_self] at hsub
  exact (hsub.eq_of_length ((perm_ranked xs).filter _).length_eq.symm).symm

theorem mem_iff_of_filter_priority {xs ys : List (Finding α)}
    (h : ∀ p, (xs.filter fun x => x.priority = p) = ys.filter fun x => x.priority = p)
    (x : Finding α) : x ∈ xs ↔ x ∈ ys := by
  simpa using congrArg (x ∈ ·) (h x.priority)

/-- Ordered findings are determined by those of each priority. -/
theorem eq_of_ordered {xs ys : List (Finding α)} (hxs : Ordered xs) (hys : Ordered ys)
    (h : ∀ p, (xs.filter fun x => x.priority = p) = ys.filter fun x => x.priority = p) : xs = ys := by
  induction xs generalizing ys with
  | nil =>
    refine (List.eq_nil_iff_forall_not_mem.2 fun y hy => ?_).symm
    exact nomatch (mem_iff_of_filter_priority h y).2 hy
  | cons x xs ih =>
    have hmem := mem_iff_of_filter_priority h
    cases ys with
    | nil => exact nomatch (hmem x).1 List.mem_cons_self
    | cons y ys =>
      obtain ⟨hx, hxs'⟩ := List.pairwise_cons.1 hxs
      obtain ⟨hy, hys'⟩ := List.pairwise_cons.1 hys
      -- Both lists begin with the first one of the most severe priority.
      have hle : x.priority.rank ≤ y.priority.rank := by
        rcases List.mem_cons.1 ((hmem y).2 List.mem_cons_self) with rfl | hmem
        · exact le_rfl
        · exact hx y hmem
      have hge : y.priority.rank ≤ x.priority.rank := by
        rcases List.mem_cons.1 ((hmem x).1 List.mem_cons_self) with rfl | hmem
        · exact le_rfl
        · exact hy x hmem
      have hpriority : y.priority = x.priority := Priority.rank_inj (hge.antisymm hle)
      have hfirst := h x.priority
      rw [List.filter_cons_of_pos (by simp), List.filter_cons_of_pos (by simpa using hpriority)]
        at hfirst
      obtain ⟨rfl, -⟩ := List.cons.inj hfirst
      refine congrArg (x :: ·) (ih hxs' hys' fun p => ?_)
      have hboth := h p
      rw [List.filter_cons, List.filter_cons] at hboth
      split at hboth
      · exact (List.cons.inj hboth).2
      · exact hboth

/-- Leaving findings out and ordering them can be done in either order. -/
theorem filter_ranked (keep : Finding α → Bool) (xs : List (Finding α)) :
    (ranked xs).filter keep = ranked (xs.filter keep) := by
  refine eq_of_ordered ((ordered_ranked xs).filter keep) (ordered_ranked _) fun p => ?_
  rw [filter_priority_ranked, List.filter_filter, List.filter_filter]
  simp only [Bool.and_comm _ (keep _)]
  rw [← List.filter_filter, filter_priority_ranked, List.filter_filter]

/-! ## 2. What one rule finds -/

namespace Rule

/-- A rule whose findings carry its id. -/
def Signs (rule : Rule α) : Prop :=
  ∀ periods config x, rule.check periods config = .ok (some x) → x.rule = rule.id

variable {disabled : List String} {periods : Periods α} {config : Config α}

theorem runs_iff (rule : Rule α) (disabled : List String) (days : Nat) :
    rule.runs disabled days = true ↔
      rule.enabled = true ∧ rule.id ∉ disabled ∧ rule.leastDays ≤ days := by
  simp [runs, and_assoc]

/-- Where more rules are disabled, a rule is run as before, unless it is one of them. -/
theorem runs_append (rule : Rule α) (disabled ids : List String) (days : Nat) :
    rule.runs (disabled ++ ids) days = (rule.runs disabled days && !ids.contains rule.id) := by
  rw [Bool.eq_iff_iff, Bool.and_eq_true, runs_iff, runs_iff]
  simp
  tauto

theorem finding?_eq (rule : Rule α) (disabled : List String) (periods : Periods α)
    (config : Config α) :
    rule.finding? disabled periods config = if rule.runs disabled periods.days.length = true then
      (rule.check periods config).toOption.join else none := by
  unfold finding?
  split
  · cases rule.check periods config <;> rfl
  · rfl

theorem check_of_finding? {rule : Rule α} {x : Finding α}
    (h : rule.finding? disabled periods config = some x) :
    rule.check periods config = .ok (some x) := by
  unfold finding? at h
  split at h
  · cases hcheck : rule.check periods config with
    | ok found =>
      rw [hcheck] at h
      exact congrArg _ h
    | error fault =>
      rw [hcheck] at h
      cases h
  · cases h

/-- Where more rules are disabled, a rule finds what it found before, unless it is one of them. -/
theorem finding?_append {rule : Rule α} (hsigns : rule.Signs) (disabled ids : List String)
    (periods : Periods α) (config : Config α) :
    rule.finding? (disabled ++ ids) periods config =
      (rule.finding? disabled periods config).filter fun x => !ids.contains x.rule := by
  rw [finding?_eq, finding?_eq, runs_append]
  cases hruns : rule.runs disabled periods.days.length with
  | false => rfl
  | true =>
    rw [Bool.true_and, if_pos rfl]
    cases hcheck : rule.check periods config with
    | error fault => cases ids.contains rule.id <;> rfl
    | ok found =>
      cases found with
      | none => cases ids.contains rule.id <;> rfl
      | some x =>
        rw [← hsigns _ _ _ hcheck]
        show (if (!ids.contains x.rule) = true then some x else none) = Option.filter _ (some x)
        rw [Option.filter_some]

end Rule

/-- The configuration with more rules disabled. -/
def Config.disabling (config : Config α) (ids : List String) : Config α :=
  { config with disabled := config.disabled ++ ids }

/-! ## 3. What a catalog reports -/

theorem findingsWithout_eq (disabled : List String) (catalog : List (Rule α)) (periods : Periods α)
    (config : Config α) : findingsWithout disabled catalog periods config =
      ranked (catalog.filterMap fun rule => rule.finding? disabled periods config) := rfl

theorem findings_eq (catalog : List (Rule α)) (periods : Periods α) (config : Config α) :
    findings catalog periods config =
      ranked (catalog.filterMap fun rule => rule.finding? config.disabled periods config) := rfl

/-- Everything that is reported was found by a rule of the catalog. -/
theorem exists_of_mem_findings {catalog : List (Rule α)} {periods : Periods α} {config : Config α}
    {x : Finding α} (h : x ∈ findings catalog periods config) :
    ∃ rule ∈ catalog, rule.check periods config = .ok (some x) := by
  rw [findings_eq, (perm_ranked _).mem_iff] at h
  obtain ⟨rule, hrule, hfinding⟩ := List.mem_filterMap.1 h
  exact ⟨rule, hrule, Rule.check_of_finding? hfinding⟩

/-- Where more rules are disabled, the findings of these rules are missing. -/
theorem findingsWithout_append {catalog : List (Rule α)} (hsigns : ∀ rule ∈ catalog, rule.Signs)
    (disabled ids : List String) (periods : Periods α) (config : Config α) :
    findingsWithout (disabled ++ ids) catalog periods config =
      (findingsWithout disabled catalog periods config).filter fun x => !ids.contains x.rule := by
  rw [findingsWithout_eq, findingsWithout_eq, filter_ranked, List.filter_filterMap]
  congr 1
  exact List.filterMap_congr fun rule hrule => Rule.finding?_append (hsigns rule hrule) ..

/-- Which configuration the rules are handed matters only for those that are not disabled. -/
theorem findingsWithout_congr {catalog : List (Rule α)} {disabled : List String}
    {periods : Periods α} {config config' : Config α}
    (h : ∀ rule ∈ catalog, rule.id ∉ disabled → rule.check periods config = rule.check periods config') :
    findingsWithout disabled catalog periods config =
      findingsWithout disabled catalog periods config' := by
  rw [findingsWithout_eq, findingsWithout_eq]
  refine congrArg ranked (List.filterMap_congr fun rule hrule => ?_)
  rw [Rule.finding?_eq, Rule.finding?_eq]
  split
  · rename_i hruns
    rw [h rule hrule ((Rule.runs_iff ..).1 hruns).2.1]
  · rfl

/-- Where the configuration names more rules, their findings are missing, and nothing else changes
unless another rule looks at which rules are named. -/
theorem findings_disabling {catalog : List (Rule α)} (hsigns : ∀ rule ∈ catalog, rule.Signs)
    {periods : Periods α} {config : Config α} {ids : List String}
    (hsame : ∀ rule ∈ catalog, rule.id ∉ config.disabled ++ ids →
      rule.check periods (config.disabling ids) = rule.check periods config) :
    findings catalog periods (config.disabling ids) =
      (findings catalog periods config).filter fun x => !ids.contains x.rule :=
  calc findings catalog periods (config.disabling ids)
      = findingsWithout (config.disabled ++ ids) catalog periods config := findingsWithout_congr hsame
    _ = (findings catalog periods config).filter fun x => !ids.contains x.rule :=
      findingsWithout_append hsigns ..

/-! ## 4. The rules of the catalog -/

section

variable [Measure α]

theorem Comparison.rule_of_found {c : Comparison} {periods : Periods α} {current previous change : α}
    {x : Finding α} (h : c.found periods current previous change = .ok x) : x.rule = c.id := by
  obtain ⟨context, -, h⟩ := exists_of_bind_eq_ok h
  obtain ⟨earlier, -, h⟩ := exists_of_bind_eq_ok h
  obtain ⟨now, -, h⟩ := exists_of_bind_eq_ok h
  obtain ⟨percent, -, h⟩ := exists_of_bind_eq_ok h
  obtain rfl := Except.ok.inj h
  rfl

theorem Comparison.signs_rule (c : Comparison) : (c.rule : Rule α).Signs := by
  intro periods config x h
  change c.check periods config = _ at h
  unfold check at h
  split at h
  · cases h
  · obtain ⟨current?, -, h⟩ := exists_of_bind_eq_ok h
    split at h
    · cases h
    · obtain ⟨previous?, -, h⟩ := exists_of_bind_eq_ok h
      split at h
      · cases h
      · obtain ⟨change, -, h⟩ := exists_of_bind_eq_ok h
        split at h
        · rw [map_eq_pure_bind] at h
          obtain ⟨y, hfound, h⟩ := exists_of_bind_eq_ok h
          obtain rfl := Option.some.inj (Except.ok.inj h)
          exact rule_of_found hfound
        · cases h

theorem Bottleneck.rule_of_found {periods : Periods α} {s : Stage} {rate : α} {x : Finding α}
    (h : found periods s rate = .ok x) : x.rule = "funnel_bottleneck" := by
  obtain ⟨loss, -, h⟩ := exists_of_bind_eq_ok h
  obtain ⟨source, -, h⟩ := exists_of_bind_eq_ok h
  obtain ⟨target, -, h⟩ := exists_of_bind_eq_ok h
  obtain rfl := Except.ok.inj h
  rfl

theorem Bottleneck.signs_rule : (Bottleneck.rule : Rule α).Signs := by
  intro periods config x h
  change check periods config funnelStages = _ at h
  generalize funnelStages = stages at h
  induction stages with
  | nil => cases h
  | cons s stages ih =>
    obtain ⟨rate?, -, h⟩ := exists_of_bind_eq_ok h
    split at h
    · exact ih h
    · obtain ⟨percent, -, h⟩ := exists_of_bind_eq_ok h
      split at h
      · rw [map_eq_pure_bind] at h
        obtain ⟨y, hfound, h⟩ := exists_of_bind_eq_ok h
        obtain rfl := Option.some.inj (Except.ok.inj h)
        exact rule_of_found hfound
      · exact ih h

end

theorem Anomaly.signs_rule (metrics : List String) : (Anomaly.rule metrics).Signs := by
  intro periods config x h
  change check periods config metrics = _ at h
  induction metrics with
  | nil => cases h
  | cons metric metrics ih =>
    obtain ⟨xs, -, h⟩ := exists_of_bind_eq_ok h
    dsimp only at h
    split at h
    · exact ih h
    · obtain ⟨deviations, -, h⟩ := exists_of_bind_eq_ok h
      split at h
      · exact ih h
      · split at h
        · obtain rfl := Option.some.inj (Except.ok.inj h)
          rfl
        · exact ih h

section

variable [Measure α] {rule : Rule α}

theorem mem_comparingRules :
    rule ∈ comparingRules ↔ (∃ c ∈ comparisons, c.rule = rule) ∨ rule = Bottleneck.rule := by
  simp [comparingRules]

theorem signs_of_mem_comparingRules (h : rule ∈ comparingRules) : rule.Signs := by
  obtain ⟨c, -, rfl⟩ | rfl := mem_comparingRules.1 h
  · exact c.signs_rule
  · exact Bottleneck.signs_rule

/-- Which rules are disabled is nothing to the rules that compare and divide. -/
theorem check_disabling_of_mem_comparingRules (h : rule ∈ comparingRules) (periods : Periods α)
    (config : Config α) (ids : List String) :
    rule.check periods (config.disabling ids) = rule.check periods config := by
  obtain ⟨c, hc, rfl⟩ | rfl := mem_comparingRules.1 h
  · simp only [comparisons, List.mem_cons, List.not_mem_nil, or_false] at hc
    rcases hc with rfl | rfl | rfl | rfl | rfl <;> rfl
  · rfl

end

/-- The rules of the program's own catalog sign their findings. -/
theorem signs_of_mem_catalog {rule : Rule Number} (h : rule ∈ catalog) : rule.Signs := by
  rcases List.mem_append.1 h with h | h
  · exact signs_of_mem_comparingRules h
  · obtain rfl := List.mem_singleton.1 h
    exact Anomaly.signs_rule _

/-- No rule of the program's own catalog looks at which rules are disabled, so to disable some of them
leaves out their findings and nothing else. -/
theorem findings_catalog_disabling (periods : Periods Number) (config : Config Number)
    (ids : List String) :
    findings catalog periods (config.disabling ids) =
      (findings catalog periods config).filter fun x => !ids.contains x.rule := by
  refine findings_disabling (fun _ => signs_of_mem_catalog) fun rule hrule _ => ?_
  rcases List.mem_append.1 hrule with h | h
  · exact check_disabling_of_mem_comparingRules h ..
  · obtain rfl := List.mem_singleton.1 h
    rfl

/-! ## 5. Rules side by side -/

/-- Two periods in which the costs rise and the leads are halved, and three days. -/
def dearWeek : Periods ℚ where
  current := [("cpl", .number 140), ("cac", .number 130), ("leads", .number 50)]
  previous := some [("cpl", .number 100), ("cac", .number 100), ("leads", .number 100)]
  days := [[("leads", .number 20)], [("leads", .number 20)], [("leads", .number 10)]]

/-- A rule that always fails. -/
def broken : Rule ℚ := ⟨"broken", 0, true, fun _ _ => .error .divisionByZero⟩

end Insights

end Dashboards
