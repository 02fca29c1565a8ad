import Dashboards.Insights.Catalog
import Dashboards.Proofs.Metrics.Aggregate
import Mathlib.Tactic.Linarith
import Mathlib.Tactic.Ring

/-!
# The bottleneck of the funnel

Which stage the rule reports, over the rationals.  The metrics of a period hold rates in percent,
and the rule computes fractions where no rate is given; it takes every rate of at most one for a
fraction and every other one for a percentage.  Where that is right, the rule reports the first
stage whose conversion is below the threshold, with the rates given or without them.
-/

namespace Dashboards

namespace Insights.Bottleneck

variable {ms : Members ℚ}

/-! ## 1. Metrics as cells -/

theorem cell_cellsOf (ms : Members ℚ) (name : String) :
    (cellsOf ms).cell name = ((ms.get? name).map Cell.number).getD .absent := by
  rw [Row.cell, cellsOf, Members.get?_mapValues]

theorem finite?_cell (ms : Members ℚ) (name : String) :
    ((cellsOf ms).cell name).finite? = .ok (ms.get? name) := by
  rw [cell_cellsOf]
  cases ms.get? name <;> rfl

/-- The cell of a metric is its first entry. -/
theorem lookup_cellsOf (ms : Members ℚ) (metric : String) :
    (cellsOf ms).lookup metric = ((entryOf ms metric).map Cell.number).getD .absent := by
  unfold Row.lookup entryOf
  induction aliasesOf metric with
  | nil => rfl
  | cons name names ih =>
    rw [List.map_cons, List.find?_cons, List.findSome?_cons, cell_cellsOf]
    cases ms.get? name with
    | none => exact ih
    | some a => rfl

theorem finite?_lookup (ms : Members ℚ) (metric : String) :
    ((cellsOf ms).lookup metric).finite? = .ok (entryOf ms metric) := by
  rw [lookup_cellsOf]
  cases entryOf ms metric <;> rfl

/-! ## 2. What the rule does -/

/-- The rate of a stage: the one given, else the fraction of a positive total. -/
def rateIn (ms : Members ℚ) (s : Stage) : Option ℚ :=
  (ms.get? s.rate).or ((entryOf ms s.target).bind fun target =>
    (entryOf ms s.source).bind fun source => if 0 < source then some (target / source) else none)

theorem isPositive_rat (a : ℚ) : Measure.isPositive a = decide (0 < a) := by
  simp [Measure.isPositive, Measure.lt, Measure.ofInt]

theorem rate_eq (ms : Members ℚ) (s : Stage) : rate (cellsOf ms) s = .ok (rateIn ms s) := by
  unfold rate rateIn
  rw [finite?_cell, finite?_lookup, finite?_lookup]
  cases ms.get? s.rate with
  | some a => rfl
  | none =>
    cases entryOf ms s.target with
    | none => rfl
    | some target =>
      cases entryOf ms s.source with
      | none => rfl
      | some source =>
        show (if Measure.isPositive source = true then some <$> Measure.div target source
          else pure none) = Except.ok (if 0 < source then some (target / source) else none)
        rw [isPositive_rat]
        by_cases hsource : 0 < source
        · have hdiv : Measure.div target source = .ok (target / source) := if_neg hsource.ne'
          rw [decide_eq_true hsource, if_pos rfl, if_pos hsource, hdiv]
          rfl
        · rw [decide_eq_false hsource, if_neg Bool.false_ne_true, if_neg hsource]
          rfl

/-- A rate in percent, as the rule understands it. -/
def percentOf (rate : ℚ) : ℚ := if rate ≤ 1 then rate * 100 else rate

theorem inPercent_eq (rate : ℚ) : inPercent rate = .ok (percentOf rate) := by
  have hle : Measure.le rate (Measure.ofInt 1) = decide (rate ≤ 1) := by
    simp [Measure.le, Measure.lt, Measure.same, Measure.ofInt, le_iff_lt_or_eq]
  rw [inPercent, percentOf, hle]
  by_cases hrate : rate ≤ 1
  · rw [decide_eq_true hrate, if_pos rfl, if_pos hrate]
    rfl
  · rw [decide_eq_false hrate, if_neg Bool.false_ne_true, if_neg hrate]
    rfl

/-- What is reported of a stage with a rate in percent and its totals. -/
def finding (days : Nat) (s : Stage) (percent source target : ℚ) : Finding ℚ where
  rule := "funnel_bottleneck"
  kind := .bottleneck
  priority := if 70 < 100 - percent then .critical else .high
  evidence := .bottleneck s percent (100 - percent) source target
  confidence := .ofDays days 14

theorem stageTotal_eq (ms : Members ℚ) (name : String) :
    stageTotal (cellsOf ms) name = .ok ((entryOf ms name).getD 0) := by
  unfold stageTotal
  rw [finite?_lookup]
  cases entryOf ms name <;> rfl

theorem found_eq (ms : Members ℚ) (previous : Option (Row ℚ)) (days : List (Row ℚ)) (s : Stage)
    (percent : ℚ) :
    found ⟨cellsOf ms, previous, days⟩ s percent = .ok (finding days.length s percent
      ((entryOf ms s.source).getD 0) ((entryOf ms s.target).getD 0)) := by
  unfold found
  rw [stageTotal_eq, stageTotal_eq]
  simp [finding, Measure.sub, Measure.lt, Measure.ofInt]
  rfl

/-- A stage is reported if its rate is positive and below the threshold. -/
def report? (threshold percent : ℚ) (f : Finding ℚ) : Option (Finding ℚ) :=
  if 0 < percent ∧ percent < threshold then some f else none

/-- What the rule says of a stage. -/
def reportOn? (threshold : ℚ) (days : Nat) (ms : Members ℚ) (s : Stage) : Option (Finding ℚ) :=
  (rateIn ms s).bind fun rate => report? threshold (percentOf rate) <|
    finding days s (percentOf rate) ((entryOf ms s.source).getD 0) ((entryOf ms s.target).getD 0)

/-- The rule reports the first stage of which it says something. -/
theorem check_eq (ms : Members ℚ) (previous : Option (Row ℚ)) (days : List (Row ℚ))
    (config : Config ℚ) (stages : List Stage) :
    check ⟨cellsOf ms, previous, days⟩ config stages =
      .ok (stages.findSome? (reportOn? config.bottleneck days.length ms)) := by
  induction stages with
  | nil => rfl
  | cons s stages ih =>
    rw [check, rate_eq, List.findSome?_cons, reportOn?]
    cases rateIn ms s with
    | none => exact ih
    | some rate =>
      show (inPercent rate >>= _) = _
      rw [inPercent_eq, Option.bind_some, report?]
      show (if (Measure.isPositive (percentOf rate) &&
        Measure.lt (percentOf rate) config.bottleneck) = true then _ else _) = _
      have hboth : (decide (0 < percentOf rate) && Measure.lt (percentOf rate) config.bottleneck) =
          decide (0 < percentOf rate ∧ percentOf rate < config.bottleneck) := by
        simp [Measure.lt]
      rw [isPositive_rat, found_eq, ih, hboth]
      by_cases hreport : 0 < percentOf rate ∧ percentOf rate < config.bottleneck
      · rw [decide_eq_true hreport, if_pos rfl, if_pos hreport]
        rfl
      · rw [decide_eq_false hreport, if_neg Bool.false_ne_true, if_neg hreport]

/-! ## 3. Conversions -/

/-- The conversion of a stage, in percent of a positive total. -/
def conversion? (rows : List (Row ℚ)) (s : Stage) : Option (ℚ × ℚ × ℚ) :=
  (totalOf rows s.source).bind fun source => (totalOf rows s.target).bind fun target =>
    if 0 < source then some (100 * target / source, source, target) else none

/-- What is to be said of a stage: that its conversion is positive and below the threshold. -/
def due? (threshold : ℚ) (days : Nat) (rows : List (Row ℚ)) (s : Stage) : Option (Finding ℚ) :=
  (conversion? rows s).bind fun c => report? threshold c.1 (finding days s c.1 c.2.1 c.2.2)

/-- A conversion between two totals that the rule understands: given in percent, it is above one
or not reported anyway, and as a fraction it is at most one or not reported anyway.  Percentages are
given of negative totals, too. -/
structure Understood (threshold source target : ℚ) : Prop where
  percent : 0 < source → 100 * target / source ≤ 0 ∨ 1 < 100 * target / source ∨
    threshold ≤ 100 * target / source
  fraction : 0 < source → target / source ≤ 1 ∨ threshold ≤ target / source
  negative : source < 0 → 100 * target / source ≤ 0 ∨
    threshold ≤ percentOf (100 * target / source)

theorem report?_eq_none {threshold percent : ℚ} (h : percent ≤ 0 ∨ threshold ≤ percent)
    (f : Finding ℚ) : report? threshold percent f = none :=
  if_neg fun hreport => h.elim (not_le_of_gt hreport.1) (not_le_of_gt hreport.2)

theorem percentOf_nonpos {rate : ℚ} (h : rate ≤ 0) : percentOf rate ≤ 0 := by
  rw [percentOf, if_pos (by linarith)]
  linarith

theorem le_percentOf {rate : ℚ} (h : 0 ≤ rate) : rate ≤ percentOf rate := by
  unfold percentOf
  split <;> linarith

/-- Of a percentage that is understood, the same is reported as of the conversion. -/
theorem report?_percent {threshold percent : ℚ}
    (h : percent ≤ 0 ∨ 1 < percent ∨ threshold ≤ percent) (f : ℚ → Finding ℚ) :
    report? threshold (percentOf percent) (f (percentOf percent)) =
      report? threshold percent (f percent) := by
  by_cases hone : 1 < percent
  · rw [percentOf, if_neg (not_le_of_gt hone)]
  · -- Neither of the two is reported.
    rcases le_or_gt percent 0 with hpercent | hpercent
    · rw [report?_eq_none (.inl (percentOf_nonpos hpercent)), report?_eq_none (.inl hpercent)]
    · have hthreshold : threshold ≤ percent :=
        (h.resolve_left (not_le_of_gt hpercent)).resolve_left hone
      rw [report?_eq_none (.inr (hthreshold.trans (le_percentOf hpercent.le))),
        report?_eq_none (.inr hthreshold)]

/-- Of a fraction that is understood, the same is reported as of the conversion. -/
theorem report?_fraction {threshold fraction : ℚ} (h : fraction ≤ 1 ∨ threshold ≤ fraction)
    (f : ℚ → Finding ℚ) :
    report? threshold (percentOf fraction) (f (percentOf fraction)) =
      report? threshold (fraction * 100) (f (fraction * 100)) := by
  rcases le_or_gt fraction 1 with hone | hone
  · rw [percentOf, if_pos hone]
  · have hthreshold : threshold ≤ fraction := h.resolve_left (not_le_of_gt hone)
    have hhundred : fraction ≤ fraction * 100 := by linarith
    rw [percentOf, if_neg (not_le_of_gt hone), report?_eq_none (.inr hthreshold),
      report?_eq_none (.inr (hthreshold.trans hhundred))]

/-! ## 4. The metrics of a period -/

/-- The metrics without the rates. -/
def withoutRates (ms : Members ℚ) : Members ℚ := ms.filter fun m => !isRate m.1

theorem get?_withoutRates (ms : Members ℚ) (name : String) :
    (withoutRates ms).get? name = if isRate name then none else ms.get? name := by
  induction ms with
  | nil => simp [withoutRates, Members.get?]
  | cons m ms ih =>
    by_cases hrate : isRate m.1 = true
    · have hdropped : withoutRates (m :: ms) = withoutRates ms := by simp [withoutRates, hrate]
      rw [hdropped, ih, Members.get?]
      split
      · rfl
      · rename_i hname
        rw [if_neg]
        rintro rfl
        exact hname hrate
    · have hkept : withoutRates (m :: ms) = m :: withoutRates ms := by simp [withoutRates, hrate]
      rw [hkept, Members.get?, Members.get?, ih]
      by_cases hname : m.1 = name
      · rw [if_pos hname, if_pos hname, if_neg (hname ▸ hrate)]
      · rw [if_neg hname, if_neg hname]

/-- No total goes by the name of a rate. -/
theorem entryOf_withoutRates (ms : Members ℚ) {name : String} (hname : name ∈ canonicalTotals) :
    entryOf (withoutRates ms) name = entryOf ms name := by
  have hrates : ∀ name ∈ canonicalTotals, ∀ other ∈ aliasesOf name, isRate other = false := by
    decide
  refine entryOf_congr fun other hother => ?_
  rw [get?_withoutRates, hrates name hname other hother, if_neg Bool.false_ne_true]

variable {rows : List (Row ℚ)} {threshold : ℚ} {s : Stage}

/-- A stage whose conversion is understood, if it has one. -/
def StageUnderstood (threshold : ℚ) (rows : List (Row ℚ)) (s : Stage) : Prop :=
  ∀ source target, totalOf rows s.source = some source → totalOf rows s.target = some target →
    Understood threshold source target

/-- The rate of a stage in the metrics of a period. -/
theorem get?_rate (hms : aggregate rows = .ok ms) (hs : s ∈ funnelStages) :
    ms.get? s.rate = (totalOf rows s.target).bind fun target => (totalOf rows s.source).bind
      fun source => if source = 0 then none else some (100 * target / source) := by
  have hrate := (aggregate_spec hms).2 s hs
  rw [ratio_rat] at hrate
  rw [← Except.ok.inj hrate]
  congr 1
  funext target
  congr 1
  funext source
  have hpercent : target / source * ((100 : Int) : ℚ) = 100 * target / source := by
    push_cast
    ring
  split
  · rfl
  · exact congrArg some hpercent

/-- With the rates of the period, the rule says what is due. -/
theorem reportOn?_aggregate (hms : aggregate rows = .ok ms) (hs : s ∈ funnelStages)
    (h : StageUnderstood threshold rows s) (days : Nat) :
    reportOn? threshold days ms s = due? threshold days rows s := by
  obtain ⟨htotals, -⟩ := aggregate_spec hms
  obtain ⟨hsource, htarget⟩ := mem_canonicalTotals_of_stage s hs
  rw [reportOn?, rateIn, due?, conversion?, (htotals _ hsource).2, (htotals _ htarget).2,
    get?_rate hms hs]
  cases hx : totalOf rows s.source with
  | none => cases totalOf rows s.target <;> rfl
  | some x =>
    cases hy : totalOf rows s.target with
    | none => rfl
    | some y =>
      have hunderstood := h x y hx hy
      simp only [Option.bind_some, Option.getD_some]
      rcases lt_trichotomy x 0 with hneg | rfl | hpos
      · simp only [if_neg hneg.ne, if_neg (not_lt_of_gt hneg), Option.or_none, Option.bind_some]
        exact report?_eq_none ((hunderstood.negative hneg).imp_left percentOf_nonpos) _
      · simp
      · simp only [if_neg hpos.ne', if_pos hpos, Option.some_or, Option.bind_some]
        exact report?_percent (hunderstood.percent hpos) fun p => finding days s p x y

/-- Without them, it says the same. -/
theorem reportOn?_withoutRates (hms : aggregate rows = .ok ms) (hs : s ∈ funnelStages)
    (h : StageUnderstood threshold rows s) (days : Nat) :
    reportOn? threshold days (withoutRates ms) s = due? threshold days rows s := by
  obtain ⟨htotals, -⟩ := aggregate_spec hms
  obtain ⟨hsource, htarget⟩ := mem_canonicalTotals_of_stage s hs
  rw [reportOn?, rateIn, due?, conversion?, entryOf_withoutRates ms hsource,
    entryOf_withoutRates ms htarget, (htotals _ hsource).2, (htotals _ htarget).2,
    get?_withoutRates, isRate_of_mem_funnelStages s hs, if_pos rfl, Option.none_or]
  cases hx : totalOf rows s.source with
  | none => cases totalOf rows s.target <;> rfl
  | some x =>
    cases hy : totalOf rows s.target with
    | none => rfl
    | some y =>
      simp only [Option.bind_some, Option.getD_some]
      by_cases hpos : 0 < x
      · have hpercent : 100 * y / x = y / x * 100 := by ring
        rw [if_pos hpos, if_pos hpos, hpercent]
        exact report?_fraction ((h x y hx hy).fraction hpos) fun p => finding days s p x y
      · rw [if_neg hpos, if_neg hpos]
        rfl

/-- On the metrics of any rows the rule reports the first stage of the funnel whose conversion is
positive and below the threshold, and nothing if there is none; and it reports the same when it has
to compute the rates itself.  Every conversion must be one that it understands. -/
theorem check_aggregate (rows : List (Row ℚ)) (previous : Option (Row ℚ)) (days : List (Row ℚ))
    (config : Config ℚ) :
    ∃ ms, aggregate rows = .ok ms ∧
      ((∀ s ∈ funnelStages, StageUnderstood config.bottleneck rows s) →
        check ⟨cellsOf ms, previous, days⟩ config funnelStages =
            .ok (funnelStages.findSome? (due? config.bottleneck days.length rows)) ∧
          check ⟨cellsOf (withoutRates ms), previous, days⟩ config funnelStages =
            .ok (funnelStages.findSome? (due? config.bottleneck days.length rows))) := by
  obtain ⟨ms, hms⟩ := exists_aggregate rows
  refine ⟨ms, hms, fun h => ?_⟩
  rw [check_eq, check_eq]
  constructor
  · exact congrArg Except.ok (findSome?_congr fun s hs => reportOn?_aggregate hms hs (h s hs) _)
  · exact congrArg Except.ok (findSome?_congr fun s hs => reportOn?_withoutRates hms hs (h s hs) _)

/-- The default thresholds. -/
def defaults : Config ℚ where
  minVariation := 15
  minSampleDays := 3
  cplWarning := 20
  cplDecrease := 15
  cacWarning := 25
  leadsDrop := 20
  leadsGrowth := 20
  conversionDrop := 15
  bottleneck := 50
  deviations := 2
  maxOutliers := 2
  minObservations := 7
  disabled := []

/-- Two days on which 100 leads become 80 entries and these 20 meetings. -/
def twoDays : List (Row ℚ) :=
  [[("date", .other), ("leads", .number 60), ("entries", .number 50)],
    [("date", .other), ("leads", .number 40), ("entries", .number 30),
      ("meetings_scheduled", .number 20)]]

def entryStage : Stage := ⟨"leads", "entries", "entry_rate"⟩

def schedulingStage : Stage := ⟨"entries", "meetings_scheduled", "meeting_scheduled_rate"⟩

/-- One entry in four becomes a meeting, and that is reported with the rates and without them. -/
theorem check_aggregate_twoDays :
    ∃ ms, aggregate twoDays = .ok ms ∧
      check ⟨cellsOf ms, none, twoDays⟩ defaults funnelStages =
          .ok (some (finding 2 schedulingStage 25 80 20)) ∧
        check ⟨cellsOf (withoutRates ms), none, twoDays⟩ defaults funnelStages =
          .ok (some (finding 2 schedulingStage 25 80 20)) := by
  have hleads : totalOf twoDays "leads" = some 100 := by decide +kernel
  have hentries : totalOf twoDays "entries" = some 80 := by decide +kernel
  have hmeetings : totalOf twoDays "meetings_scheduled" = some 20 := by decide +kernel
  have hheld : totalOf twoDays "meetings_held" = none := by decide +kernel
  have hunderstood : ∀ s ∈ funnelStages, StageUnderstood 50 twoDays s := by
    intro s hs x y hx hy
    simp only [funnelStages, List.mem_cons, List.not_mem_nil, or_false] at hs
    rcases hs with rfl | rfl | rfl | rfl
    · obtain rfl := Option.some.inj (hleads.symm.trans hx)
      obtain rfl := Option.some.inj (hentries.symm.trans hy)
      constructor <;> norm_num
    · obtain rfl := Option.some.inj (hentries.symm.trans hx)
      obtain rfl := Option.some.inj (hmeetings.symm.trans hy)
      constructor <;> norm_num
    · cases hheld.symm.trans hy
    · cases hheld.symm.trans hx
  have hdue : funnelStages.findSome? (due? 50 2 twoDays) =
      some (finding 2 schedulingStage 25 80 20) := by
    have hfirst : due? 50 2 twoDays entryStage = none := by
      simp only [due?, conversion?, entryStage, hleads, hentries, Option.bind_some, report?]
      norm_num
    have hsecond : due? 50 2 twoDays schedulingStage =
        some (finding 2 schedulingStage 25 80 20) := by
      simp only [due?, conversion?, schedulingStage, hmeetings, hentries, Option.bind_some, report?]
      norm_num
    show List.findSome? _ (entryStage :: schedulingStage :: _) = _
    rw [List.findSome?_cons, hfirst, List.findSome?_cons, hsecond]
  obtain ⟨ms, hms, h⟩ := check_aggregate twoDays none twoDays defaults
  obtain ⟨hwith, hwithout⟩ := h hunderstood
  exact ⟨ms, hms, hwith.trans (congrArg _ hdue), hwithout.trans (congrArg _ hdue)⟩

/-- A day of leads and entries. -/
def oneDay (leads entries : ℚ) : List (Row ℚ) :=
  [[("leads", .number leads), ("entries", .number entries)]]

/-- Its metrics when a thousand leads become three entries. -/
def fewEntries : Members ℚ := [("leads", 1000), ("entries", 3), ("entry_rate", 3 / 10)]

/-- Its metrics when there are more entries than leads. -/
def manyEntries : Members ℚ := [("leads", 100), ("entries", 150), ("entry_rate", 150)]

theorem reportOn?_of_rate {rate x y : ℚ} (hrate : rateIn ms s = some rate)
    (hsource : entryOf ms s.source = some x) (htarget : entryOf ms s.target = some y) (days : Nat) :
    reportOn? threshold days ms s =
      report? threshold (percentOf rate) (finding days s (percentOf rate) x y) := by
  rw [reportOn?, hrate, hsource, htarget]
  rfl

theorem findSome?_entryStage {f : Stage → Option (Finding ℚ)} {found : Finding ℚ}
    (h : f entryStage = some found) : funnelStages.findSome? f = some found := by
  show List.findSome? f (entryStage :: _) = _
  rw [List.findSome?_cons, h]

/-- Three entries of a thousand leads are reported as thirty percent; and one and a half entries for
each lead are not reported with the rates, but without them as one and a half percent. -/
theorem check_aggregate_misunderstood :
    (aggregate (oneDay 1000 3) = .ok fewEntries ∧
      check ⟨cellsOf fewEntries, none, []⟩ defaults funnelStages =
        .ok (some (finding 0 entryStage 30 1000 3)) ∧
      funnelStages.findSome? (due? 50 0 (oneDay 1000 3)) =
        some (finding 0 entryStage (3 / 10) 1000 3)) ∧
    aggregate (oneDay 100 150) = .ok manyEntries ∧
      check ⟨cellsOf manyEntries, none, []⟩ defaults funnelStages = .ok none ∧
      check ⟨cellsOf (withoutRates manyEntries), none, []⟩ defaults funnelStages =
        .ok (some (finding 0 entryStage (3 / 2) 100 150)) := by
  refine ⟨⟨by decide +kernel, ?_, ?_⟩, by decide +kernel, ?_, ?_⟩
  · have hrate : rateIn fewEntries entryStage = some (3 / 10) := by decide +kernel
    have hleads : entryOf fewEntries entryStage.source = some 1000 := by decide +kernel
    have hentries : entryOf fewEntries entryStage.target = some 3 := by decide +kernel
    rw [check_eq]
    refine congrArg Except.ok (findSome?_entryStage ?_)
    rw [reportOn?_of_rate hrate hleads hentries]
    norm_num [percentOf, report?, defaults]
  · have hleads : totalOf (oneDay 1000 3) entryStage.source = some 1000 := by decide +kernel
    have hentries : totalOf (oneDay 1000 3) entryStage.target = some 3 := by decide +kernel
    refine findSome?_entryStage ?_
    rw [due?, conversion?, hleads, hentries]
    norm_num [report?]
  · have hothers : ∀ s ∈ funnelStages, s ≠ entryStage → rateIn manyEntries s = none := by
      decide +kernel
    have hrate : rateIn manyEntries entryStage = some 150 := by decide +kernel
    rw [check_eq]
    refine congrArg Except.ok (List.findSome?_eq_none_iff.2 fun s hs => ?_)
    by_cases hentry : s = entryStage
    · rw [hentry, reportOn?, hrate]
      norm_num [percentOf, report?, defaults]
    · rw [reportOn?, hothers s hs hentry]
      rfl
  · have hrate : rateIn (withoutRates manyEntries) entryStage = some (3 / 2) := by decide +kernel
    have hleads : entryOf (withoutRates manyEntries) entryStage.source = some 100 := by
      decide +kernel
    have hentries : entryOf (withoutRates manyEntries) entryStage.target = some 150 := by
      decide +kernel
    rw [check_eq]
    refine congrArg Except.ok (findSome?_entryStage ?_)
    rw [reportOn?_of_rate hrate hleads hentries]
    norm_num [percentOf, report?, defaults]

end Insights.Bottleneck

end Dashboards
