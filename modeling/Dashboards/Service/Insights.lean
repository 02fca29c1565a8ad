import Dashboards.Insights.Catalog
import Dashboards.Service.Body
import Dashboards.Service.Errand
import Dashboards.Settings

/-!
# Insights from data

The metrics of both periods are taken as given or computed from the rows. The data are checked, and
rules are run on valid data only.
-/

namespace Dashboards

namespace Service

namespace InsightsBody

/-- Metrics as given, or else computed from rows. -/
def metricsOf (given : Option (Members Float)) (rows : List Integrity.Record) :
    Calculated (Members Number) :=
  match given with
  | some metrics => .ok (metrics.mapValues .float)
  | none => aggregate (rows.map Row.ofMembers)

def currentMetrics (b : InsightsBody) : Calculated (Members Number) := metricsOf b.metrics b.rows

/-- The metrics of the previous period; there are none without metrics or rows of it. -/
def earlierMetrics (b : InsightsBody) : Calculated (Option (Members Number)) :=
  match b.previousMetrics, b.previousRows.getD [] with
  | none, [] => .ok none
  | given, rows => some <$> metricsOf given rows

/-- How the data are checked: as the request says, or else as the settings say. -/
def checking (b : InsightsBody) (s : Settings) : Shape.Checked Integrity.Config :=
  match b.config with
  | some config => .good config
  | none => s.integrity

/-- What the rules find in the data. -/
def findings (b : InsightsBody) (current : Members Number) (previous : Option (Members Number)) :
    List (Insights.Finding Float) :=
  let periods : Insights.Periods Number :=
    ⟨cellsOf current, previous.map cellsOf, b.rows.map Row.ofMembers⟩
  (Insights.findings Insights.catalog periods (Insights.Config.default.map .float)).map
    (·.map Number.nearestFloat)

/-- A finding with its entry in an audit log. -/
def showFinding (b : InsightsBody) (f : Insights.Finding Float) : Value :=
  .obj (f.members ++ [("trace", f.trace b.range b.source)])

def showMetrics (metrics : Members Number) : Value :=
  (Value.obj (metrics.mapValues .num)).finiteOnly

/-- Checks the data and draws insights from them. -/
def draw (b : InsightsBody) (s : Settings) (trace : String) : Except Failure Value := do
  let current ← b.currentMetrics.mapError fun _ => internalFailure
  let previous ← b.earlierMetrics.mapError fun _ => internalFailure
  let config ← (b.checking s).toExcept.mapError fun _ => internalFailure
  let report ← (Integrity.validate b.rows (current.mapValues .num) config).mapError
    fun _ => internalFailure
  let found := if report.valid then b.findings current previous else []
  let complaint :=
    if report.valid then []
    else [("error", (Failure.mk .validationError report.summary none).toValue)]
  pure (.obj ([("ok", .bool report.valid), ("traceId", .str trace),
    ("validation", report.toValue), ("insights", .arr (found.map b.showFinding)),
    ("aggregates", showMetrics current),
    ("previousAggregates", .ofOption showMetrics previous)] ++ complaint))

end InsightsBody

end Service

end Dashboards
