import Dashboards.Insights.Rule
import Dashboards.Metrics.Aggregate
import Dashboards.Metrics.Change

/-!
# The catalog of rules

Five rules compare a metric of the two periods, one looks for the first stage of the funnel that
loses too much, and one for single days that lie far from the mean.
-/

namespace Dashboards

namespace Insights

variable {α : Type} [Measure α]

/-! ## Comparing two periods -/

inductive Direction where
  | increase
  | decrease
  deriving DecidableEq, Repr

/-- A rule that fires when a metric changes by more than a threshold in one direction. The tiers say
which magnitudes get which priority, the first one that is exceeded counts. -/
structure Comparison where
  id : String
  kind : Kind
  subject : Subject
  direction : Direction
  threshold : {α : Type} → Config α → α
  tiers : List (Int × Priority)
  otherwise : Priority
  context : List String

namespace Comparison

/-- Whether a change goes beyond the threshold; one that just reaches it does not. -/
def fires (c : Comparison) (config : Config α) (change : α) : Bool :=
  match c.direction with
  | .increase => Measure.lt (c.threshold config) change
  | .decrease => Measure.lt change (Measure.neg (c.threshold config))

def priority (c : Comparison) (change : α) : Priority :=
  match c.tiers.find? fun t => Measure.lt (Measure.ofInt t.1) (Measure.magnitude change) with
  | some (_, p) => p
  | none => c.otherwise

/-- The finite value of a metric, or zero where there is none. -/
def contextValue (current : Row α) (name : String) : Calculated (String × α) := do
  match ← (current.lookup name).finite? with
  | some a => pure (name, ← Measure.real a)
  | none => pure (name, Measure.ofInt 0)

/-- What the rule finds when the metric went from one value to another. -/
def found (c : Comparison) (periods : Periods α) (current previous change : α) :
    Calculated (Finding α) := do
  let context ← c.context.mapM (contextValue periods.current)
  pure
    { rule := c.id
      kind := c.kind
      priority := c.priority change
      evidence := .change c.subject (← Measure.real previous) (← Measure.real current)
        (← Measure.real change) context
      confidence := .ofDays periods.days.length 7 }

def check (c : Comparison) (periods : Periods α) (config : Config α) :
    Calculated (Option (Finding α)) := do
  match periods.previous with
  | none => pure none
  | some earlier =>
    match ← (periods.current.lookup c.subject.metric).finite? with
    | none => pure none
    | some current =>
      match ← (earlier.lookup c.subject.metric).finite? with
      | none => pure none
      | some previous =>
        -- Both periods have a finite value.
        let change ← percentChange current previous
        if c.fires config change then some <$> c.found periods current previous change
        else pure none

def rule (c : Comparison) : Rule α := ⟨c.id, 3, true, c.check⟩

end Comparison

def costPerLead (action : String) : Subject := ⟨"cpl", "CPL", "cpl = spend / leads", .currency, action⟩

def costPerSale (action : String) : Subject := ⟨"cac", "CAC", "cac = spend / sales", .currency, action⟩

def leadVolume (action : String) : Subject :=
  ⟨"leads", "Leads", "change = (current - previous) / |previous| * 100", .percent, action⟩

def comparisons : List Comparison :=
  [{ id := "cpl_increase"
     kind := .problem
     subject := costPerLead
       "Review the worst performing ads and reallocate budget to the most efficient ones."
     direction := .increase
     threshold := Config.cplWarning
     tiers := [(50, .critical), (35, .high)]
     otherwise := .medium
     context := ["spend", "leads"] },
   { id := "cpl_decrease"
     kind := .opportunity
     subject := costPerLead "Identify what changed and consider scaling that strategy."
     direction := .decrease
     threshold := Config.cplDecrease
     tiers := [(30, .high)]
     otherwise := .medium
     context := ["spend", "leads"] },
   { id := "cac_increase"
     kind := .problem
     subject := costPerSale "Analyze lead-to-sale conversion and look for funnel bottlenecks."
     direction := .increase
     threshold := Config.cacWarning
     tiers := [(50, .critical)]
     otherwise := .high
     context := ["spend", "sales"] },
   { id := "leads_drop"
     kind := .problem
     subject := leadVolume
       "Check for campaign or budget changes, or a technical problem with lead forms."
     direction := .decrease
     threshold := Config.leadsDrop
     tiers := [(40, .critical)]
     otherwise := .high
     context := [] },
   { id := "leads_growth"
     kind := .opportunity
     subject := leadVolume "Identify the source of the growth and consider increasing investment."
     direction := .increase
     threshold := Config.leadsGrowth
     tiers := [(50, .high)]
     otherwise := .medium
     context := [] }]

/-! ## The funnel -/

namespace Bottleneck

/-- The rate of a stage: the one given, else the ratio of the two totals. -/
def rate (current : Row α) (s : Stage) : Calculated (Option α) := do
  match ← (current.cell s.rate).finite? with
  | some a => some <$> Measure.real a
  | none =>
    match ← (current.lookup s.target).finite? with
    | none => pure none
    | some target =>
      match ← (current.lookup s.source).finite? with
      | none => pure none
      | some source =>
        if Measure.isPositive source then some <$> Measure.div target source else pure none

/-- A rate of at most one is a fraction; other rates are percentages already. -/
def inPercent (rate : α) : Calculated α :=
  if Measure.le rate (Measure.ofInt 1) then Measure.mul rate (Measure.ofInt 100) else pure rate

/-- The total of a stage, or zero where there is none. -/
def stageTotal (current : Row α) (name : String) : Calculated α := do
  match ← (current.lookup name).finite? with
  | some a => Measure.real a
  | none => pure (Measure.ofInt 0)

def found (periods : Periods α) (s : Stage) (rate : α) : Calculated (Finding α) := do
  let loss ← Measure.sub (Measure.ofInt 100) rate
  pure
    { rule := "funnel_bottleneck"
      kind := .bottleneck
      priority := if Measure.lt (Measure.ofInt 70) loss then .critical else .high
      evidence := .bottleneck s rate loss (← stageTotal periods.current s.source)
        (← stageTotal periods.current s.target)
      confidence := .ofDays periods.days.length 14 }

/-- The first stage whose rate is positive and below the threshold. -/
def check (periods : Periods α) (config : Config α) : List Stage → Calculated (Option (Finding α))
  | [] => pure none
  | s :: rest => do
    match ← rate periods.current s with
    | none => check periods config rest
    | some r =>
      let r ← inPercent r
      if Measure.isPositive r && Measure.lt r config.bottleneck then some <$> found periods s r
      else check periods config rest

def rule : Rule α := ⟨"funnel_bottleneck", 5, true, fun p c => check p c funnelStages⟩

end Bottleneck

/-! ## Single days -/

namespace Anomaly

/-- The metrics that are looked at, the first one with an anomaly counts. -/
def metrics : List String :=
  ["spend", "cost_total", "leads", "leads_new", "leads_total", "sales", "sales_total"]

/-- The finite values of a metric from day to day. -/
def series (days : List (Row Number)) (metric : String) : Calculated (List Float) :=
  days.filterMapM fun day => do
    match ← (day.cell metric).finite? with
    | some n => some <$> n.toFloat
    | none => pure none

/-- The values farther from the mean than so many standard deviations. -/
def outliers (xs : List Float) (mean spread : Float) : List Float :=
  xs.filter fun x => (x - mean).abs > spread

def found (days : Nat) (metric : String) (value mean deviation : Float) : Finding Number where
  rule := "daily_anomaly"
  kind := .anomaly
  priority := .medium
  evidence := (Evidence.outlier metric value mean deviation ((value - mean) / deviation)).map .float
  confidence := .ofDays days 14

/-- The first metric with a few outliers. More of them would be a shift of the whole series. -/
def check (periods : Periods Number) (config : Config Number) :
    List String → Calculated (Option (Finding Number))
  | [] => pure none
  | metric :: rest => do
    let xs ← series periods.days metric
    let (m, sd) := (mean xs, deviation xs)
    -- Too few values, or values that are all alike, have no outliers.
    if (xs.length : Int) < config.minObservations || sd == 0.0 then check periods config rest
    else
      let spread := (← config.deviations.toFloat) * sd
      match outliers xs m spread with
      | [] => check periods config rest
      | x :: more =>
        if (more.length + 1 : Int) ≤ config.maxOutliers then
          pure (some (found periods.days.length metric x m sd))
        else check periods config rest

def rule (metrics : List String) : Rule Number :=
  ⟨"daily_anomaly", 7, true, fun p c => check p c metrics⟩

end Anomaly

/-! ## All rules -/

/-- The rules that only compare and divide, over any kind of number. -/
def comparingRules : List (Rule α) := comparisons.map Comparison.rule ++ [Bottleneck.rule]

def catalog : List (Rule Number) := comparingRules ++ [Anomaly.rule Anomaly.metrics]

end Insights

end Dashboards
