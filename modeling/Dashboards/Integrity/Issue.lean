import Dashboards.Document.NonFinite
import Dashboards.Json.Display
import Dashboards.Metrics.Arithmetic

/-!
# Findings about data

What can be wrong with the rows of a period and its metrics. The finding fixes its code, its
severity, its message and the fields it is about. Data are invalid when there is a critical finding
or an error; a warning does not make them invalid.
-/

namespace Dashboards

namespace Integrity

inductive Severity where
  | critical
  | error
  | warning
  deriving DecidableEq, Repr

def Severity.text : Severity → String
  | .critical => "critical"
  | .error => "error"
  | .warning => "warning"

/-- Whether a finding of this severity makes the data invalid. -/
def Severity.isDisabling : Severity → Bool
  | .warning => false
  | _ => true

/-- A cell with a number that is not finite. -/
structure BadCell where
  field : String
  row : Nat
  shown : String

/-- Two values of one metric that differ; the difference is unknown when one of them is no finite
number. -/
structure Discrepancy where
  field : String
  first : Value
  second : Value
  difference : Option Number

inductive Finding where
  | tooFewRows (found : Nat) (least : Int)
  | nonFiniteCells (cells : List BadCell)
  | badMetrics (names : List String)
  | highRate (field : String) (value : Number)
  | negativeMoney (field : String) (value : Number)
  | missingFields (names : List String)
  | noDates (field : String) (required : Bool)
  | differentTotals (discrepancies : List Discrepancy)

/-- The texts of a list, each at its first place only. -/
def distinct (xs : List String) : List String :=
  xs.foldl (fun seen x => if seen.contains x then seen else seen ++ [x]) []

/-- At most so many cells or differences are given in the details of a finding. -/
def sampleSize : Nat := 5

namespace BadCell

def toValue (c : BadCell) : Value :=
  .obj [("field", .str c.field), ("rowIndex", .ofNat c.row), ("value", .str c.shown)]

end BadCell

namespace Discrepancy

def toValue (d : Discrepancy) : Value :=
  .obj [("field", .str d.field), ("val1", d.first), ("val2", d.second),
    ("diff", .ofOption .num d.difference)]

end Discrepancy

namespace Finding

def code : Finding → String
  | .tooFewRows .. => "INSUFFICIENT_DATA"
  | .nonFiniteCells _ => "NAN_INFINITY_VALUES"
  | .badMetrics _ => "INVALID_AGGREGATED_VALUES"
  | .highRate .. | .negativeMoney .. => "UNIT_INCONSISTENCY"
  | .missingFields _ => "MISSING_REQUIRED_FIELDS"
  | .noDates .. => "MISSING_DATE_FIELD"
  | .differentTotals _ => "TOTALS_MISMATCH"

def severity : Finding → Severity
  | .tooFewRows .. | .badMetrics _ => .critical
  | .nonFiniteCells _ => .error
  | .noDates _ required => if required then .error else .warning
  | _ => .warning

/-- The fields that a finding is about. -/
def fields? : Finding → Option (List String)
  | .tooFewRows .. => none
  | .nonFiniteCells cells => some (distinct (cells.map (·.field)))
  | .badMetrics names | .missingFields names => some names
  | .highRate field _ | .negativeMoney field _ | .noDates field _ => some [field]
  | .differentTotals ds => some (ds.map (·.field))

private def listed (names : List String) : String := ", ".intercalate names

def message : Finding → String
  | .tooFewRows found least =>
    if found = 0 then "Dataset is empty" else s!"Insufficient data: {found} row(s), minimum {least}"
  | .nonFiniteCells cells =>
    let fields := (distinct (cells.map (·.field))).length
    s!"{cells.length} invalid value(s) in {fields} field(s)"
  | .badMetrics names => "Invalid aggregated values: " ++ listed names
  | .highRate _ value => s!"Value {value.show} is outside the expected range for a rate"
  | .negativeMoney _ value => s!"Negative value {value.show} for a currency field"
  | .missingFields names => "Missing required fields: " ++ listed names
  | .noDates field _ => "Date field \"" ++ field ++ "\" not found"
  | .differentTotals ds => "Aggregates do not match row totals: " ++ listed (ds.map (·.field))

def details? : Finding → Option (Members Value)
  | .tooFewRows found least => some [("rowCount", .ofNat found), ("minRows", .ofInt least)]
  | .nonFiniteCells cells =>
    some [("sampleIssues", .arr ((cells.take sampleSize).map (·.toValue)))]
  | .highRate .. => some [("expectedUnit", .str "rate (0-1) or percent (0-100)")]
  | .negativeMoney .. => some [("expectedUnit", .str "currency")]
  | .differentTotals ds =>
    some [("discrepancies", .arr ((ds.take sampleSize).map (·.toValue)))]
  | _ => none

/-- The members of a finding; absent ones are left out, and in the details a number that is not
finite is null. -/
def toValue (f : Finding) : Value :=
  .obj ([("code", .str f.code), ("message", .str f.message), ("severity", .str f.severity.text)] ++
    (match f.fields? with
     | some names => [("affectedFields", .ofStrings names)]
     | none => []) ++
    match f.details? with
    | some ms => [("details", (Value.obj ms).finiteOnly)]
    | none => [])

end Finding

end Integrity

end Dashboards
