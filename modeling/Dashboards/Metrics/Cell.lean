import Dashboards.Metrics.Measure
import Dashboards.Shape.Scalar

/-!
# Rows of metrics

A row maps names to cells, and so do the metrics of a period. A cell holds a number, nothing, or
something that is no number. Some metrics go by several names.
-/

namespace Dashboards

inductive Cell (α : Type) where
  | absent
  | number (a : α)
  | other

/-- The named cells of one day, or of a whole period. -/
abbrev Row (α : Type) := Members (Cell α)

namespace Cell

variable {α : Type}

def number? : Cell α → Option α
  | .number a => some a
  | _ => none

def isAbsent : Cell α → Bool
  | .absent => true
  | _ => false

/-- A boolean is no number. -/
def ofValue : Value → Cell Number
  | .null => .absent
  | .num n => .number n
  | _ => .other

/-- The number that a text stands for; a NaN counts as missing. -/
def numeral? (s : String) : Option Number :=
  let cs := trimBoth Char.isWhitespace s.toList
  let digits := if cs.head? = some '-' || cs.head? = some '+' then cs.drop 1 else cs
  if !digits.isEmpty && digits.all Char.isDigit then
    let n : Int := Json.digitsValue digits
    some (.int (if cs.head? = some '-' then -n else n))
  else (Shape.readPlainFloat? cs).bind fun x => if x.isNaN then none else some (.float x)

/-- A cell of a column that is asked for by name: booleans and texts count as the numbers they stand
for. -/
def ofAnyValue : Value → Cell Number
  | .bool b => .number (.int (if b then 1 else 0))
  | .str s => ((numeral? s).map .number).getD .absent
  | v => ofValue v

/-- The number in a cell, if it is finite. -/
def finite? [Measure α] : Cell α → Calculated (Option α)
  | .number a => do if ← Measure.isFinite a then pure (some a) else pure none
  | _ => pure none

end Cell

/-! ## Names -/

/-- The names of the metrics that go by several, in the order in which they are looked up. -/
def metricAliases : List (String × List String) :=
  [("spend", ["spend", "cost_total", "cost"]), ("leads", ["leads", "leads_new", "leads_total"]),
   ("sales", ["sales", "sales_total"]), ("entries", ["entries"]),
   ("meetings_scheduled", ["meetings_scheduled"]), ("meetings_held", ["meetings_held"]),
   ("cpl", ["cpl", "cost_per_lead"]), ("cac", ["cac", "cost_per_acquisition"])]

def aliasesOf (name : String) : List String := (metricAliases.lookup name).getD [name]

/-- Two consecutive stages of the funnel and the rate at which the first leads to the second. -/
structure Stage where
  source : String
  target : String
  rate : String
  deriving DecidableEq, Repr

def funnelStages : List Stage :=
  [⟨"leads", "entries", "entry_rate"⟩,
   ⟨"entries", "meetings_scheduled", "meeting_scheduled_rate"⟩,
   ⟨"meetings_scheduled", "meetings_held", "attendance_rate"⟩,
   ⟨"meetings_held", "sales", "sale_after_meeting_rate"⟩]

/-- The columns that hold the date of a row. -/
def dateColumns : List String := ["date", "day"]

/-- Whether a column holds rates, which are never summed. -/
def isRate (name : String) : Bool := name = "ctr" || "_rate".toList.isSuffixOf name.toList

theorem isRate_of_mem_funnelStages : ∀ s ∈ funnelStages, isRate s.rate = true := by decide

namespace Row

variable {α : Type}

/-- The cell under a name; nothing where there is none. -/
def cell (row : Row α) (name : String) : Cell α := (row.get? name).getD .absent

/-- The first cell under one of the names of a metric in which something stands. -/
def lookup (row : Row α) (metric : String) : Cell α :=
  ((aliasesOf metric).map row.cell).find? (fun c => !c.isAbsent) |>.getD .absent

def ofMembers (ms : Members Value) : Row Number := ms.mapValues Cell.ofValue

/-- A row whose columns are asked for by name. -/
def ofAnyMembers (ms : Members Value) : Row Number := ms.mapValues Cell.ofAnyValue

end Row

end Dashboards
