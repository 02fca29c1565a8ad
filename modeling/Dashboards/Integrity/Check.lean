import Dashboards.Integrity.Issue
import Dashboards.Metrics.Aggregate

/-!
# Checking data

The rows of a period and its metrics are looked at by seven checks, each of which can be disabled.
Data with a finding that is critical or an error are invalid, and no insights are drawn from them.
-/

namespace Dashboards

namespace Integrity

/-- A row of data as it was given. -/
abbrev Record := Members Value

/-- The checks, in the order in which they are made. -/
inductive Check where
  | sufficiency
  | finiteness
  | metrics
  | units
  | requiredFields
  | dates
  | totals
  deriving DecidableEq, Repr

namespace Check

def name : Check → String
  | .sufficiency => "data_sufficiency"
  | .finiteness => "nan_infinity"
  | .metrics => "aggregated_nan"
  | .units => "unit_consistency"
  | .requiredFields => "required_fields"
  | .dates => "date_field"
  | .totals => "totals_match"

def all : List Check :=
  [.sufficiency, .finiteness, .metrics, .units, .requiredFields, .dates, .totals]

end Check

structure Config where
  leastRows : Int
  requiredFields : List String
  numericFields : Option (List String)
  dateField : String
  requireDates : Bool
  rateFields : Option (List String)
  currencyFields : Option (List String)
  tolerance : Float
  disabled : List String

namespace Config

def default : Config where
  leastRows := 3
  requiredFields := []
  numericFields := none
  dateField := "date"
  requireDates := false
  rateFields := none
  currencyFields := none
  tolerance := 0.01
  disabled := []

open Shape in
def read : Reader Config :=
  record "ValidatorConfig" fun ms =>
    Config.mk <$> optional ms "minRowsForInsights" default.leastRows (integerAtLeast 0) <*>
      optional ms "requiredFields" [] (list text) <*>
      nullableField ms "numericFields" (list text) <*>
      optional ms "dateField" default.dateField text <*>
      optional ms "requireDateField" false boolean <*>
      nullableField ms "rateFields" (list text) <*>
      nullableField ms "currencyFields" (list text) <*>
      optional ms "totalsTolerance" default.tolerance (floatWithin 0 none) <*>
      optional ms "disabledChecks" [] (list text)

def toValue (c : Config) : Value :=
  .obj [("minRowsForInsights", .ofInt c.leastRows), ("requiredFields", .ofStrings c.requiredFields),
    ("numericFields", .ofOption .ofStrings c.numericFields), ("dateField", .str c.dateField),
    ("requireDateField", .bool c.requireDates), ("rateFields", .ofOption .ofStrings c.rateFields),
    ("currencyFields", .ofOption .ofStrings c.currencyFields),
    ("totalsTolerance", .ofFloat c.tolerance), ("disabledChecks", .ofStrings c.disabled)]

end Config

/-- The metrics taken as rates where none are named. -/
def defaultRateFields : List String :=
  ["entry_rate", "meeting_scheduled_rate", "attendance_rate", "sale_after_meeting_rate",
   "sale_rate", "conversion_rate"]

/-- The metrics taken as money where none are named. -/
def defaultCurrencyFields : List String := ["cpl", "cac", "spend", "cost_total", "cost_per_entry"]

/-- Metrics that are never plain totals of a column. -/
def derivedMetrics : List String :=
  ["cpl", "cac", "cost_per_lead", "cost_per_acquisition", "cost_per_entry"]

/-! ## The single checks -/

/-- The finite number that a value is. -/
def finiteNumber? : Value → Calculated (Option Number)
  | .num n => do if ← n.hasFiniteFloat then pure (some n) else pure none
  | _ => pure none

def checkSufficiency (rows : List Record) (least : Int) : List Finding :=
  if least ≤ rows.length then [] else [.tooFewRows rows.length least]

/-- The fields of a row that are looked at: the named ones, or all that hold numbers. -/
def inspectedFields (named : List String) (row : Record) : List String :=
  if named.isEmpty then (row.filter fun (_, v) => (Cell.ofValue v).number?.isSome).map (·.1)
  else named

/-- The inspected cells of a row whose numbers are not finite. -/
def badCells (named : List String) (index : Nat) (row : Record) : Calculated (List BadCell) :=
  (inspectedFields named row).foldlM (fun found field =>
    match row.get? field with
    | some (.num n) => do
      if ← n.hasFiniteFloat then pure found else pure (found ++ [⟨field, index, n.show⟩])
    | _ => pure found) []

def checkFiniteness (rows : List Record) (named : List String) : Calculated (List Finding) := do
  let cells ← rows.zipIdx.mapM fun (row, i) => badCells named i row
  match cells.flatten with
  | [] => pure []
  | cells => pure [.nonFiniteCells cells]

def checkMetrics (metrics : Record) : Calculated (List Finding) := do
  let names ← metrics.filterMapM fun (name, v) => do
    pure (if (← finiteNumber? v).isSome then none else some name)
  match names with
  | [] => pure []
  | names => pure [.badMetrics names]

/-- The findings about fields whose finite value is in some range. -/
def fieldsWhere (metrics : Record) (bad : Number → Bool) (finding : String → Number → Finding)
    (fields : List String) : Calculated (List Finding) :=
  fields.filterMapM fun field => do
    match ← finiteNumber? ((metrics.get? field).getD .null) with
    | some n => pure (if bad n then some (finding field n) else none)
    | none => pure none

/-- A rate is at most one hundred, and an amount of money is not negative. -/
def checkUnits (metrics : Record) (rates money : List String) : Calculated (List Finding) := do
  -- Values that are no finite numbers belong to other checks.
  let high ← fieldsWhere metrics (fun n => (Number.int 100).lt n) .highRate rates
  let negative ← fieldsWhere metrics (fun n => n.lt (.int 0)) .negativeMoney money
  pure (high ++ negative)

/-- The first row has to have the required fields. -/
def checkRequiredFields (rows : List Record) (required : List String) : List Finding :=
  match required.filter fun f => !((rows.head?.getD []).contains f) with
  | [] => []
  | missing => [.missingFields missing]

/-- One of the rows has to have a date. -/
def checkDates (rows : List Record) (field : String) (required : Bool) : List Finding :=
  let dated (row : Record) := (field :: dateColumns).any fun f => ((row.get? f).getD .null).isTruthy
  if rows.any dated then [] else [.noDates field required]

/-! ## Comparing totals -/

/-- The larger of two numbers; the first one where they are equal. -/
def larger (a b : Number) : Number := if a.lt b then b else a

/-- Whether two numbers differ by more than a tolerance, relative to the larger magnitude or to one,
and by how much. -/
def difference (tolerance a b : Number) : Calculated (Option Number) := do
  let apart := (← a.sub b).magnitude
  let relative ← apart.div (larger (larger a.magnitude b.magnitude) (.int 1))
  pure (if tolerance.lt relative then some apart else none)

/-- How the two values of one metric differ. -/
def discrepancy? (tolerance : Number) (field : String) (a b : Value) :
    Calculated (Option Discrepancy) := do
  match ← finiteNumber? a with
  | none => pure (some ⟨field, .str a.plain, .str b.plain, none⟩)
  | some m =>
    match ← finiteNumber? b with
    | none => pure (some ⟨field, .str a.plain, .str b.plain, none⟩)
    | some n =>
      pure ((← difference tolerance m n).map fun d => ⟨field, .num m, .num n, some d⟩)

/-- Compares two tables of metrics; a metric that is missing on one side counts as zero there. -/
def compareMetrics (tolerance : Number) (a b : Record) : Calculated (List Discrepancy) :=
  (distinct (a.keys ++ b.keys)).filterMapM fun key =>
    discrepancy? tolerance key ((a.get? key).getD (.ofInt 0)) ((b.get? key).getD (.ofInt 0))

/-- The metrics that have to be the totals of columns. -/
def comparedColumns (rows : List Record) (metrics : Record) : List String :=
  (numericColumns (rows.map Row.ofMembers)).filter fun c =>
    metrics.contains c && !isRate c && !derivedMetrics.contains c

/-- The totals of the compared columns have to be the metrics of that name. -/
def checkTotals (rows : List Record) (metrics : Record) (tolerance : Number) :
    Calculated (List Finding) := do
  -- Rates and derived metrics are never totals, so they are left out.
  let columns := comparedColumns rows metrics
  let totals ← sumColumns (rows.map Row.ofMembers) columns
  let supplied := columns.map fun c => (c, (metrics.get? c).getD .null)
  match ← compareMetrics tolerance (totals.mapValues .num) supplied with
  | [] => pure []
  | ds => pure [.differentTotals ds]

/-! ## All checks -/

/-- Whether a check has anything to look at. -/
def applies (rows : List Record) (metrics : Record) (config : Config) : Check → Bool
  | .requiredFields => !config.requiredFields.isEmpty && !rows.isEmpty
  | .dates => !rows.isEmpty
  | .totals => !rows.isEmpty && !metrics.isEmpty
  | _ => true

def run (rows : List Record) (metrics : Record) (config : Config) :
    Check → Calculated (List Finding)
  | .sufficiency => pure (checkSufficiency rows config.leastRows)
  | .finiteness => checkFiniteness rows (config.numericFields.getD [])
  | .metrics => checkMetrics metrics
  | .units =>
    checkUnits metrics (config.rateFields.getD defaultRateFields)
      (config.currencyFields.getD defaultCurrencyFields)
  | .requiredFields => pure (checkRequiredFields rows config.requiredFields)
  | .dates => pure (checkDates rows config.dateField config.requireDates)
  | .totals => checkTotals rows metrics (.float config.tolerance)

/-- What the checks found, and which were made. -/
structure Report where
  valid : Bool
  errors : List Finding
  warnings : List Finding
  performed : List Check

/-- Makes all checks that are not disabled and have something to look at. -/
def validate (rows : List Record) (metrics : Record) (config : Config) : Calculated Report := do
  let performed := Check.all.filter fun c =>
    !config.disabled.contains c.name && applies rows metrics config c
  let findings := (← performed.mapM (run rows metrics config)).flatten
  let errors := findings.filter fun f => f.severity.isDisabling
  let warnings := findings.filter fun f => !f.severity.isDisabling
  pure ⟨errors.isEmpty, errors, warnings, performed⟩

namespace Report

/-- The report in one sentence. -/
def summary (r : Report) : String :=
  let critical := (r.errors.filter fun f => f.severity = .critical).length
  if critical ≠ 0 then s!"Inconsistent data: {critical} critical error(s). Insights disabled."
  else if !r.errors.isEmpty then
    s!"{r.errors.length} integrity error(s) detected. Insights disabled."
  else if !r.warnings.isEmpty then
    s!"{r.warnings.length} quality warning(s). Data validated with caveats."
  else "Data validated successfully. No issues detected."

def checkNames (r : Report) : Value := .ofStrings (r.performed.map (·.name))

def toValue (r : Report) : Value :=
  .obj [("isValid", .bool r.valid), ("errors", .arr (r.errors.map (·.toValue))),
    ("warnings", .arr (r.warnings.map (·.toValue))), ("checksPerformed", r.checkNames),
    ("summary", .str r.summary)]

/-- What is logged of a report. -/
def toLog (r : Report) : Value :=
  .obj [("isValid", .bool r.valid), ("errorCount", .ofNat r.errors.length),
    ("warningCount", .ofNat r.warnings.length), ("checksPerformed", r.checkNames),
    ("summary", .str r.summary),
    ("errors", .arr (r.errors.map fun f => .obj [("code", .str f.code),
      ("message", .str f.message), ("severity", .str f.severity.text)]))]

end Report

end Integrity

end Dashboards
