import Dashboards.Proofs.Insights.Composition

/-!
# Comparing two periods

What the rules that compare two periods report, over the rationals.  A change above zero means that
the metric has grown and a change below zero that it has fallen, from whatever value it started; so
with thresholds that are not negative no rule reports a change in the wrong direction, no metric is
reported to have both grown and fallen, and of two changes that a rule reports the larger one is at
least as severe.
-/

namespace Dashboards

namespace Insights

/-! ## 1. The change -/

section

variable {previous current : ℚ}

/-- The change in percent of the magnitude it starts from; growth from zero counts as one hundred
percent. -/
def changeOf (previous current : ℚ) : ℚ :=
  if previous = 0 then if 0 < current then 100 else 0 else (current - previous) * 100 / |previous|

theorem magnitude_rat (a : ℚ) : Measure.magnitude a = |a| := by
  show (if a < 0 then -a else a) = |a|
  split
  · rename_i hneg
    rw [abs_of_neg hneg]
  · rename_i hneg
    rw [abs_of_nonneg (not_lt.1 hneg)]

theorem percentChange_rat (previous current : ℚ) :
    percentChange current previous = .ok (changeOf previous current) := by
  have hzero : Measure.isZero previous = decide (previous = 0) := by
    simp [Measure.isZero, Measure.same, Measure.ofInt]
  show (if Measure.isZero previous = true then
    (pure (Measure.ofInt (if Measure.isPositive current = true then 100 else 0)) : Calculated ℚ)
    else Measure.div ((current - previous) * ((100 : Int) : ℚ)) (Measure.magnitude previous)) = _
  rw [hzero, Bottleneck.isPositive_rat, magnitude_rat, changeOf]
  by_cases hprevious : previous = 0
  · rw [decide_eq_true hprevious, if_pos rfl, if_pos hprevious]
    by_cases hcurrent : 0 < current
    · rw [decide_eq_true hcurrent, if_pos rfl, if_pos hcurrent]
      rfl
    · rw [decide_eq_false hcurrent, if_neg Bool.false_ne_true, if_neg hcurrent]
      rfl
  · rw [decide_eq_false hprevious, if_neg Bool.false_ne_true, if_neg hprevious]
    exact if_neg (abs_ne_zero.2 hprevious)

theorem lt_of_changeOf_pos (h : 0 < changeOf previous current) : previous < current := by
  unfold changeOf at h
  split at h
  · rename_i hprevious
    split at h
    · rwa [hprevious]
    · exact absurd h (lt_irrefl 0)
  · have hpos : 0 < (current - previous) * 100 := by
      by_contra hneg
      exact absurd h (not_lt.2 (div_nonpos_of_nonpos_of_nonneg (not_lt.1 hneg) (abs_nonneg _)))
    linarith

theorem lt_of_changeOf_neg (h : changeOf previous current < 0) : current < previous := by
  unfold changeOf at h
  split at h
  · split at h
    · norm_num at h
    · exact absurd h (lt_irrefl 0)
  · have hneg : (current - previous) * 100 < 0 := by
      by_contra hpos
      exact absurd h (not_lt.2 (div_nonneg (not_lt.1 hpos) (abs_nonneg _)))
    linarith

end

/-! ## 2. What a rule finds -/

/-- The value of a metric, under the first of its names in which something stands. -/
def valueOf (row : Row ℚ) (metric : String) : Option ℚ := (row.lookup metric).number?

theorem finite?_lookup_rat (row : Row ℚ) (metric : String) :
    (row.lookup metric).finite? = .ok (valueOf row metric) := by
  unfold valueOf
  cases row.lookup metric <;> rfl

namespace Comparison

variable {c : Comparison} {periods : Periods ℚ} {config : Config ℚ}

/-- The finding that a metric went from one value to another. -/
def finding (c : Comparison) (periods : Periods ℚ) (previous current : ℚ) : Finding ℚ where
  rule := c.id
  kind := c.kind
  priority := c.priority (changeOf previous current)
  evidence := .change c.subject previous current (changeOf previous current)
    (c.context.map fun name => (name, (valueOf periods.current name).getD 0))
  confidence := .ofDays periods.days.length 7

theorem contextValue_rat (current : Row ℚ) (name : String) :
    contextValue current name = .ok (name, (valueOf current name).getD 0) := by
  unfold contextValue
  rw [finite?_lookup_rat]
  cases valueOf current name <;> rfl

theorem found_rat (c : Comparison) (periods : Periods ℚ) (previous current : ℚ) :
    c.found periods current previous (changeOf previous current) =
      .ok (c.finding periods previous current) := by
  have hcontext : c.context.mapM (contextValue periods.current) =
      .ok (c.context.map fun name => (name, (valueOf periods.current name).getD 0)) := by
    rw [funext (contextValue_rat periods.current)]
    exact List.mapM_pure
  unfold found
  rw [hcontext]
  rfl

/-- A rule compares the values of its metric, if both periods have one. -/
theorem check_rat (c : Comparison) (periods : Periods ℚ) (config : Config ℚ) :
    c.check periods config =
      .ok (periods.previous.bind fun earlier =>
        (valueOf periods.current c.subject.metric).bind fun current =>
          (valueOf earlier c.subject.metric).bind fun previous =>
            if c.fires config (changeOf previous current) = true then
              some (c.finding periods previous current) else none) := by
  unfold check
  cases periods.previous with
  | none => rfl
  | some earlier =>
    simp only [finite?_lookup_rat]
    rw [Option.bind_some]
    cases valueOf periods.current c.subject.metric with
    | none => rfl
    | some current =>
      rw [Option.bind_some]
      cases valueOf earlier c.subject.metric with
      | none => rfl
      | some previous =>
        show (percentChange current previous >>= _) = _
        rw [percentChange_rat, Option.bind_some]
        show (if c.fires config (changeOf previous current) = true then
          some <$> c.found periods current previous (changeOf previous current) else pure none) = _
        rw [found_rat]
        split <;> rfl

/-- What a finding of a rule says: the values of the metric in the two periods, and the change from
one to the other. -/
structure Reports (c : Comparison) (periods : Periods ℚ) (x : Finding ℚ) (previous current : ℚ) :
    Prop where
  before : ∃ earlier, periods.previous = some earlier ∧
    valueOf earlier c.subject.metric = some previous
  now : valueOf periods.current c.subject.metric = some current
  evidence : ∃ context,
    x.evidence = .change c.subject previous current (changeOf previous current) context

/-- A rule reports values of its metric whose change goes beyond its threshold. -/
theorem reports_of_check {x : Finding ℚ} (h : c.check periods config = .ok (some x)) :
    ∃ previous current, c.Reports periods x previous current ∧
      c.fires config (changeOf previous current) = true ∧
      x.priority = c.priority (changeOf previous current) := by
  rw [check_rat] at h
  obtain ⟨earlier, hearlier, h⟩ := Option.bind_eq_some_iff.1 (Except.ok.inj h)
  obtain ⟨current, hcurrent, h⟩ := Option.bind_eq_some_iff.1 h
  obtain ⟨previous, hprevious, h⟩ := Option.bind_eq_some_iff.1 h
  split at h
  · rename_i hfires
    obtain rfl := Option.some.inj h
    exact ⟨previous, current, ⟨⟨earlier, hearlier, hprevious⟩, hcurrent, _, rfl⟩, hfires, rfl⟩
  · cases h

/-! ## 3. Directions -/

theorem lt_of_fires_increase {previous current : ℚ} (hdirection : c.direction = .increase)
    (hthreshold : 0 ≤ c.threshold config) (h : c.fires config (changeOf previous current) = true) :
    previous < current := by
  rw [fires, hdirection] at h
  exact lt_of_changeOf_pos (hthreshold.trans_lt (of_decide_eq_true h))

theorem lt_of_fires_decrease {previous current : ℚ} (hdirection : c.direction = .decrease)
    (hthreshold : 0 ≤ c.threshold config) (h : c.fires config (changeOf previous current) = true) :
    current < previous := by
  rw [fires, hdirection] at h
  have hchange : changeOf previous current < -c.threshold config := of_decide_eq_true h
  exact lt_of_changeOf_neg (hchange.trans_le (neg_nonpos.2 hthreshold))

/-! ## 4. Priorities -/

/-- A rule whose first tiers are the most severe ones, and whose tiers are at least as severe as what
is below all of them. -/
structure Graded (c : Comparison) : Prop where
  tiers : c.tiers.Pairwise fun s t => s.2.rank ≤ t.2.rank
  otherwise : ∀ t ∈ c.tiers, t.2.rank ≤ c.otherwise.rank

theorem priority_rat (c : Comparison) (change : ℚ) :
    c.priority change =
      ((c.tiers.find? fun t => (t.1 : ℚ) < |change|).map (·.2)).getD c.otherwise := by
  have hbeyond : (fun t : Int × Priority => Measure.lt (Measure.ofInt t.1) (Measure.magnitude change)) =
      fun t => decide ((t.1 : ℚ) < |change|) := by
    rw [magnitude_rat]
    rfl
  rw [priority, hbeyond]
  cases c.tiers.find? fun t => decide ((t.1 : ℚ) < |change|) <;> rfl

/-- A larger change is at least as severe. -/
theorem Graded.rank_priority_le (h : c.Graded) {change change' : ℚ} (hle : |change| ≤ |change'|) :
    (c.priority change').rank ≤ (c.priority change).rank := by
  rw [priority_rat, priority_rat]
  obtain ⟨htiers, hotherwise⟩ := h
  generalize c.tiers = tiers at htiers hotherwise ⊢
  induction tiers with
  | nil => exact le_rfl
  | cons t tiers ih =>
    obtain ⟨hfirst, hrest⟩ := List.pairwise_cons.1 htiers
    obtain ⟨ht, hothers⟩ := List.forall_mem_cons.1 hotherwise
    rw [List.find?_cons, List.find?_cons]
    by_cases hchange : (t.1 : ℚ) < |change|
    · rw [decide_eq_true hchange, decide_eq_true (hchange.trans_le hle)]
    · rw [decide_eq_false hchange]
      by_cases hchange' : (t.1 : ℚ) < |change'|
      · rw [decide_eq_true hchange']
        show t.2.rank ≤ _
        cases hfind : tiers.find? fun t => (t.1 : ℚ) < |change| with
        | none => exact ht
        | some u => exact hfirst u (List.mem_of_find?_eq_some hfind)
      · rw [decide_eq_false hchange']
        exact ih hrest hothers

end Comparison

/-! ## 5. The rules of the catalog -/

theorem graded_of_mem_comparisons {c : Comparison} (h : c ∈ comparisons) : c.Graded := by
  simp only [comparisons, List.mem_cons, List.not_mem_nil, or_false] at h
  rcases h with rfl | rfl | rfl | rfl | rfl <;> exact ⟨by decide, by decide⟩

/-- Rules next to the comparing ones, whose findings go by other names. -/
def Others (others : List (Rule ℚ)) : Prop :=
  ∀ rule ∈ others, rule.Signs ∧ rule.id ∉ comparisons.map (·.id)

/-- What goes by the name of a rule that compares two periods was found by that rule. -/
theorem check_of_mem_findings {others : List (Rule ℚ)} (hothers : Others others) {periods : Periods ℚ}
    {config : Config ℚ} {x : Finding ℚ} (hx : x ∈ findings (comparingRules ++ others) periods config)
    {c : Comparison} (hc : c ∈ comparisons) (hrule : x.rule = c.id) :
    c.check periods config = .ok (some x) := by
  obtain ⟨rule, hmem, hcheck⟩ := exists_of_mem_findings hx
  have hforeign : ∀ rule : Rule ℚ, rule.Signs → rule.check periods config = .ok (some x) →
      rule.id ∈ comparisons.map (·.id) := by
    intro rule hsigns hcheck
    rw [← hsigns _ _ _ hcheck, hrule]
    exact List.mem_map_of_mem hc
  rcases List.mem_append.1 hmem with hmem | hmem
  · obtain ⟨c', hc', rfl⟩ | rfl := mem_comparingRules.1 hmem
    · have hid : c'.id = c.id := (c'.signs_rule _ _ _ hcheck).symm.trans hrule
      have hids : (comparisons.map (·.id)).Nodup := by decide
      obtain rfl := List.inj_on_of_nodup_map hids hc' hc hid
      exact hcheck
    · exact absurd (hforeign _ Bottleneck.signs_rule hcheck) (by decide)
  · exact absurd (hforeign rule (hothers rule hmem).1 hcheck) (hothers rule hmem).2

section

variable {others : List (Rule ℚ)} {periods : Periods ℚ} {config : Config ℚ}

theorem Comparison.Reports.eq {c c' : Comparison} {x y : Finding ℚ} {previous current : ℚ}
    {previous' current' : ℚ} (h : c.Reports periods x previous current)
    (h' : c'.Reports periods y previous' current') (hmetric : c.subject.metric = c'.subject.metric) :
    previous = previous' ∧ current = current' := by
  obtain ⟨earlier, hearlier, hprevious⟩ := h.before
  obtain ⟨earlier', hearlier', hprevious'⟩ := h'.before
  obtain rfl := Option.some.inj (hearlier.symm.trans hearlier')
  rw [← hmetric] at hprevious'
  have hnow := h'.now
  rw [← hmetric] at hnow
  exact ⟨Option.some.inj (hprevious.symm.trans hprevious'), Option.some.inj (h.now.symm.trans hnow)⟩

/-- A metric is not reported to have both grown and fallen. -/
theorem not_both_directions (metric : String) {up down : String} (hothers : Others others)
    (hthresholds : ∀ c ∈ comparisons, 0 ≤ c.threshold config)
    (hup : ∃ c ∈ comparisons, c.id = up ∧ c.direction = .increase ∧ c.subject.metric = metric)
    (hdown : ∃ c ∈ comparisons, c.id = down ∧ c.direction = .decrease ∧ c.subject.metric = metric) :
    ¬ ((∃ x ∈ findings (comparingRules ++ others) periods config, x.rule = up) ∧
      ∃ x ∈ findings (comparingRules ++ others) periods config, x.rule = down) := by
  rintro ⟨⟨x, hx, hxrule⟩, y, hy, hyrule⟩
  obtain ⟨c, hc, rfl, hincrease, hmetric⟩ := hup
  obtain ⟨c', hc', rfl, hdecrease, hmetric'⟩ := hdown
  obtain ⟨previous, current, hreports, hfires, -⟩ :=
    Comparison.reports_of_check (check_of_mem_findings hothers hx hc hxrule)
  obtain ⟨previous', current', hreports', hfires', -⟩ :=
    Comparison.reports_of_check (check_of_mem_findings hothers hy hc' hyrule)
  obtain ⟨rfl, rfl⟩ := hreports.eq hreports' (hmetric.trans hmetric'.symm)
  exact lt_asymm (Comparison.lt_of_fires_increase hincrease (hthresholds c hc) hfires)
    (Comparison.lt_of_fires_decrease hdecrease (hthresholds c' hc') hfires')

end

/-- No metric is reported to have both grown and fallen.  Rules that report growth and rules that report
a fall do so of metrics that have grown or fallen.  Of two findings of one rule, on any two inputs, the
one with the larger change is at least as severe. -/
theorem comparisons_sound {others : List (Rule ℚ)} (hothers : Others others) (periods : Periods ℚ)
    (config : Config ℚ) (hthresholds : ∀ c ∈ comparisons, 0 ≤ c.threshold config) :
    let reported := findings (comparingRules ++ others) periods config
    ¬ ((∃ x ∈ reported, x.rule = "cpl_increase") ∧ ∃ x ∈ reported, x.rule = "cpl_decrease") ∧
    ¬ ((∃ x ∈ reported, x.rule = "leads_growth") ∧ ∃ x ∈ reported, x.rule = "leads_drop") ∧
    ∀ c ∈ comparisons, ∀ x ∈ reported, x.rule = c.id →
      ∃ previous current, c.Reports periods x previous current ∧
        (c.id ∈ ["cpl_increase", "cac_increase", "leads_growth"] → previous < current) ∧
        (c.id ∈ ["cpl_decrease", "leads_drop"] → current < previous) ∧
        ∀ periods' config', ∀ y ∈ findings (comparingRules ++ others) periods' config', y.rule = c.id →
          ∃ previous' current', c.Reports periods' y previous' current' ∧
            (|changeOf previous current| ≤ |changeOf previous' current'| →
              y.priority.rank ≤ x.priority.rank) := by
  have hup : ∀ c ∈ comparisons, c.id ∈ ["cpl_increase", "cac_increase", "leads_growth"] →
      c.direction = .increase := by decide
  have hdown : ∀ c ∈ comparisons, c.id ∈ ["cpl_decrease", "leads_drop"] →
      c.direction = .decrease := by decide
  refine ⟨?_, ?_, fun c hc x hx hrule => ?_⟩
  · exact not_both_directions "cpl" hothers hthresholds (by decide) (by decide)
  · exact not_both_directions "leads" hothers hthresholds (by decide) (by decide)
  · obtain ⟨previous, current, hreports, hfires, hpriority⟩ :=
      Comparison.reports_of_check (check_of_mem_findings hothers hx hc hrule)
    refine ⟨previous, current, hreports, fun hid => ?_, fun hid => ?_, ?_⟩
    · exact Comparison.lt_of_fires_increase (hup c hc hid) (hthresholds c hc) hfires
    · exact Comparison.lt_of_fires_decrease (hdown c hc hid) (hthresholds c hc) hfires
    · intro periods' config' y hy hrule'
      obtain ⟨previous', current', hreports', -, hpriority'⟩ :=
        Comparison.reports_of_check (check_of_mem_findings hothers hy hc hrule')
      refine ⟨previous', current', hreports', fun hle => ?_⟩
      rw [hpriority, hpriority']
      exact (graded_of_mem_comparisons hc).rank_priority_le hle

/-- Metrics that have other names than before, leads where there were none, and a cost that was below
zero. -/
def renamed : Periods ℚ where
  current := [("cost_per_lead", .number 30), ("cost_per_acquisition", .number 5),
    ("leads_new", .number 50)]
  previous := some [("cpl", .number 20), ("cac", .number (-10)), ("leads", .number 0)]
  days := dearWeek.days

/-- A rule that finds nothing. -/
def silent : Rule ℚ := ⟨"silent", 0, true, fun _ _ => .ok none⟩

/-- The cost per sale grows by thirty percent and by one hundred and fifty. -/
theorem comparisons_sound_renamed :
    let first := findings (comparingRules ++ [silent]) dearWeek Bottleneck.defaults
    let second := findings (comparingRules ++ [silent]) renamed Bottleneck.defaults
    ((∃ x ∈ first, x.rule = "leads_drop") ∧ ¬ ∃ x ∈ first, x.rule = "leads_growth") ∧
    ((∃ x ∈ second, x.rule = "leads_growth") ∧ ¬ ∃ x ∈ second, x.rule = "leads_drop") ∧
    ((∃ x ∈ second, x.rule = "cpl_increase") ∧ ¬ ∃ x ∈ second, x.rule = "cpl_decrease") ∧
    ∃ x ∈ first, ∃ y ∈ second, x.rule = "cac_increase" ∧ y.rule = "cac_increase" ∧
      y.priority.rank ≤ x.priority.rank := by
  have hothers : Others [silent] := by
    intro rule hrule
    obtain rfl := List.mem_singleton.1 hrule
    exact ⟨fun _ _ _ h => (nomatch Except.ok.inj h), by decide⟩
  have hthresholds : ∀ c ∈ comparisons, 0 ≤ c.threshold Bottleneck.defaults := by decide +kernel
  have hmem : ∀ (periods : Periods ℚ) (ids : List String),
      ((comparingRules ++ [silent]).filterMap fun rule : Rule ℚ =>
        rule.finding? [] periods Bottleneck.defaults).map Finding.rule = ids →
      ∀ id ∈ ids, ∃ x ∈ findings (comparingRules ++ [silent]) periods Bottleneck.defaults,
        x.rule = id := by
    rintro periods _ rfl id hid
    obtain ⟨x, hx, hrule⟩ := List.mem_map.1 hid
    exact ⟨x, (perm_ranked _).mem_iff.2 hx, hrule⟩
  intro first second
  obtain ⟨-, hleads, hfirst⟩ := comparisons_sound hothers dearWeek Bottleneck.defaults hthresholds
  obtain ⟨hcosts, hleads', -⟩ := comparisons_sound hothers renamed Bottleneck.defaults hthresholds
  have hids := hmem dearWeek ["cpl_increase", "cac_increase", "leads_drop"] (by decide +kernel)
  have hids' := hmem renamed ["cpl_increase", "cac_increase", "leads_growth"] (by decide +kernel)
  have hdrop := hids "leads_drop" (by decide)
  have hgrowth := hids' "leads_growth" (by decide)
  have hcpl := hids' "cpl_increase" (by decide)
  obtain ⟨x, hx, hxrule⟩ := hids "cac_increase" (by decide)
  obtain ⟨y, hy, hyrule⟩ := hids' "cac_increase" (by decide)
  refine ⟨⟨hdrop, fun hup => hleads ⟨hup, hdrop⟩⟩, ⟨hgrowth, fun hdown => hleads' ⟨hgrowth, hdown⟩⟩,
    ⟨hcpl, fun hdown => hcosts ⟨hcpl, hdown⟩⟩, x, hx, y, hy, hxrule, hyrule, ?_⟩
  obtain ⟨previous, current, ⟨⟨_, hearlier, hprevious⟩, hcurrent, -⟩, -, -, hgraded⟩ :=
    hfirst comparisons[2] (List.getElem_mem _) x hx hxrule
  obtain ⟨previous', current', ⟨⟨_, hearlier', hprevious'⟩, hcurrent', -⟩, hle⟩ :=
    hgraded renamed Bottleneck.defaults y hy hyrule
  obtain rfl := Option.some.inj hearlier
  obtain rfl := Option.some.inj hearlier'
  obtain rfl : (100 : ℚ) = previous := Option.some.inj hprevious
  obtain rfl : (130 : ℚ) = current := Option.some.inj hcurrent
  obtain rfl : (-10 : ℚ) = previous' := Option.some.inj hprevious'
  obtain rfl : (5 : ℚ) = current' := Option.some.inj hcurrent'
  refine hle ?_
  norm_num [changeOf]

end Insights

end Dashboards
