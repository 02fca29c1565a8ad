import Dashboards.Metrics.Cell

/-!
# Metrics of a period

The rows of a period are reduced to its metrics: the total of every numeric column that is not a
rate, the totals under their canonical names, and the ratios of totals whose denominator is not
zero. A daily rate is never summed; the rate of the period is the ratio of the totals.
-/

namespace Dashboards

variable {α : Type}

/-- The columns in which something stands, in order of arrival, and whether only numbers do. -/
def columnKinds (rows : List (Row α)) : Members Bool :=
  rows.flatten.foldl (fun seen (name, c) =>
    if dateColumns.contains name || c.isAbsent then seen
    else seen.set name ((seen.get? name).getD true && c.number?.isSome)) []

/-- The columns in which only numbers stand. -/
def numericColumns (rows : List (Row α)) : List String :=
  ((columnKinds rows).filter (·.2)).map (·.1)

/-- The columns that are summed when none are asked for. -/
def additiveColumns (rows : List (Row α)) : List String :=
  (numericColumns rows).filter fun c => !isRate c

variable [Measure α]

/-- The cells of a column from top to bottom. -/
def columnCells (rows : List (Row α)) (name : String) : List (Option α) :=
  rows.map fun row => (row.cell name).number?

/-- The totals of the given columns, of those that there are. -/
def sumColumns (rows : List (Row α)) (columns : List String) : Calculated (Members α) :=
  columns.foldlM (fun totals name => do
    if rows.any fun row => row.contains name then
      pure (totals.set name (← Measure.total (columnCells rows name)))
    else pure totals) []

/-- The metrics that are totals. -/
def canonicalTotals : List String :=
  ["spend", "leads", "sales", "entries", "meetings_scheduled", "meetings_held"]

/-- Enters a total under its canonical name, unless it is there already. -/
def addCanonical (metrics : Members α) (name : String) : Members α :=
  if metrics.contains name then metrics
  else
    match (aliasesOf name).findSome? metrics.get? with
    | some a => metrics.set name a
    | none => metrics

/-- Enters the ratio of two totals times a factor, if both are there and the divisor is not zero. -/
def addRatio (metrics : Members α) (name dividend divisor : String) (factor : Option α) :
    Calculated (Members α) := do
  match metrics.get? dividend, metrics.get? divisor with
  | some a, some b =>
    if Measure.isZero b then pure metrics
    else
      let ratio ← Measure.div a b
      let scaled ←
        match factor with
        | some f => Measure.mul ratio f
        | none => pure ratio
      pure (metrics.set name scaled)
  | _, _ => pure metrics

/-- The metrics of a period. -/
def aggregate (rows : List (Row α)) : Calculated (Members α) := do
  let totals ← sumColumns rows (additiveColumns rows)
  let metrics := canonicalTotals.foldl addCanonical totals
  let metrics ← addRatio metrics "cpl" "spend" "leads" none
  let metrics ← addRatio metrics "cac" "spend" "sales" none
  funnelStages.foldlM (fun ms s => addRatio ms s.rate s.target s.source (some (Measure.ofInt 100)))
    metrics

/-- The metrics of a period as cells. -/
def cellsOf (metrics : Members α) : Row α := metrics.mapValues .number

end Dashboards
