import Dashboards.Date
import Dashboards.Decimal.Text
import Dashboards.Metrics.Cell

/-!
# Insights

An insight is the finding of a rule: its kind, its priority and the numbers it rests on. The title,
the description and the trace of the calculation are made from these numbers.
-/

namespace Dashboards

namespace Insights

inductive Kind where
  | problem
  | opportunity
  | bottleneck
  | anomaly
  deriving DecidableEq, Repr

def Kind.text : Kind → String
  | .problem => "problem"
  | .opportunity => "opportunity"
  | .bottleneck => "bottleneck"
  | .anomaly => "anomaly"

inductive Priority where
  | critical
  | high
  | medium
  | low
  deriving DecidableEq, Repr

namespace Priority

def text : Priority → String
  | .critical => "critical"
  | .high => "high"
  | .medium => "medium"
  | .low => "low"

/-- The place in a list of findings; the most severe ones come first. -/
def rank : Priority → Nat
  | .critical => 0
  | .high => 1
  | .medium => 2
  | .low => 3

end Priority

/-- How sure a finding is; it depends on the number of days it rests on. -/
inductive Confidence where
  | high
  | medium
  deriving DecidableEq, Repr

def Confidence.text : Confidence → String
  | .high => "high"
  | .medium => "medium"

def Confidence.ofDays (days enough : Nat) : Confidence := if enough ≤ days then .high else .medium

/-- The unit of the result of a calculation. -/
inductive Measurement where
  | currency
  | percent
  | count
  deriving DecidableEq, Repr

def Measurement.text : Measurement → String
  | .currency => "currency"
  | .percent => "percent"
  | .count => "count"

/-- What a comparison of two periods is about: the metric, how it is named and computed, and what to
do about a change. -/
structure Subject where
  metric : String
  label : String
  formula : String
  unit : Measurement
  action : String

/-- What a finding rests on. -/
inductive Evidence (α : Type) where
  | change (subject : Subject) (previous current percent : α) (context : List (String × α))
  | bottleneck (stage : Stage) (rate loss source target : α)
  | outlier (metric : String) (value mean deviation score : α)

structure Finding (α : Type) where
  rule : String
  kind : Kind
  priority : Priority
  evidence : Evidence α
  confidence : Confidence

/-! ## Texts -/

def money (x : Float) : String := Decimal.fixedText 2 true x

def percent (x : Float) : String := Decimal.fixedText 1 false x ++ "%"

def whole (x : Float) : String := Decimal.fixedText 0 true x

/-- A calculation: its formula, the numbers that go into it and its result. -/
structure Calculation where
  formula : String
  inputs : Members Float
  output : Float
  unit : Measurement

namespace Evidence

def title : Evidence Float → String
  | .change s _ _ delta _ =>
    let verb := if delta > 0.0 then "increased" else "decreased"
    s!"{s.label} {verb} {percent delta.abs}"
  | .bottleneck s _ loss _ _ => s!"Bottleneck: {percent loss} lost at {s.target}"
  | .outlier metric .. => s!"Anomaly detected in {metric}"

def description : Evidence Float → String
  | .change s previous current delta _ =>
    if s.unit = .currency then s!"{s.label} went from {money previous} to {money current}."
    else s!"{s.label} went from {whole previous} to {whole current} ({percent delta})."
  | .bottleneck s rate _ _ _ =>
    s!"Conversion from {s.source} to {s.target} is only {percent rate}."
  | .outlier _ value _ _ score =>
    let distance := Decimal.fixedText 1 false score.abs
    s!"Value {money value} is {distance} standard deviations from the mean."

/-- What to do about it. -/
def action : Evidence Float → String
  | .change s .. => s.action
  | .bottleneck s _ loss _ _ =>
    s!"Investigate why {percent loss} do not advance from {s.source} to {s.target}."
  | .outlier .. => "Check for a data error or an exceptional event on this day."

def calculation : Evidence Float → Calculation
  | .change s previous current delta context =>
    ⟨s.formula,
     Members.ofEntries
       (context ++ [("previous_" ++ s.metric, previous), ("current_" ++ s.metric, current)]),
     if s.unit = .currency then current else delta, s.unit⟩
  | .bottleneck s rate _ source target =>
    ⟨s!"rate = {s.target} / {s.source} * 100", [(s.source, source), (s.target, target)], rate,
     .percent⟩
  | .outlier _ value mean deviation score =>
    ⟨"z = (value - mean) / standard_deviation",
     [("value", value), ("mean", mean), ("standard_deviation", deviation)], score, .count⟩

def metric {α : Type} : Evidence α → String
  | .change s .. => s.metric
  | .bottleneck s .. => s.target
  | .outlier metric .. => metric

/-- The current value of the metric that a finding is about. -/
def value {α : Type} : Evidence α → α
  | .change _ _ current _ _ => current
  | .bottleneck _ rate .. => rate
  | .outlier _ value .. => value

/-- The same evidence in other numbers. -/
def map {α β : Type} (f : α → β) : Evidence α → Evidence β
  | .change s previous current delta context =>
    .change s (f previous) (f current) (f delta) (context.map fun (k, a) => (k, f a))
  | .bottleneck s rate loss source target =>
    .bottleneck s (f rate) (f loss) (f source) (f target)
  | .outlier metric value mean deviation score =>
    .outlier metric (f value) (f mean) (f deviation) (f score)

end Evidence

namespace Calculation

def members (c : Calculation) : Members Value :=
  [("formula", .str c.formula), ("inputs", .obj (c.inputs.mapValues .ofFloat)),
   ("output", .ofFloat c.output), ("unit", .str c.unit.text)]

end Calculation

namespace Finding

/-- The same finding in other numbers. -/
def map {α β : Type} (f : α → β) (x : Finding α) : Finding β :=
  { x with evidence := x.evidence.map f }

/-- What the numbers of the previous period and the change say, where a finding is about one. -/
def comparison (x : Finding Float) : Members Value :=
  match x.evidence with
  | .change _ previous _ delta _ =>
    [("previousValue", .ofFloat previous), ("changePercent", .ofFloat delta)]
  | _ => []

/-- The members of a finding; absent ones are left out. -/
def members (x : Finding Float) : Members Value :=
  [("ruleId", .str x.rule), ("type", .str x.kind.text), ("priority", .str x.priority.text),
   ("title", .str x.evidence.title), ("description", .str x.evidence.description),
   ("calculation", .obj x.evidence.calculation.members), ("metricKey", .str x.evidence.metric),
   ("currentValue", .ofFloat x.evidence.value)] ++ x.comparison ++
  [("suggestedAction", .str x.evidence.action), ("confidence", .str x.confidence.text)]

/-- The entry of a finding in an audit log. -/
def trace (x : Finding Float) (range : DateRange) (source : String) : Value :=
  .obj ([("label", .str x.evidence.title)] ++ x.evidence.calculation.members ++
    [("source", .str source), ("dateRange", range.toValue)])

end Finding

end Insights

end Dashboards
