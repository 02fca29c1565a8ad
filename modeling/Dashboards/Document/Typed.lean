import Dashboards.Shape.Scalar

/-!
# The typed sections of a document

A dashboard document is an open tree in which some sections have a declared shape. Reading a section
checks the declared fields, fills in `null` for those that are absent and keeps all others.
-/

namespace Dashboards

namespace Typed

open Shape

/-- A declared field and the check of its value. -/
abbrev Field := String × Reader Value

def optionalText : Reader Value
  | .null => .good .null
  | v => (text v).map .str

def optionalInteger : Reader Value
  | .null => .good .null
  | v => (integer v).map .ofInt

def optionalList (read : Reader Value) : Reader Value
  | .null => .good .null
  | v => (list read v).map .arr

def optionally (read : Reader Value) : Reader Value
  | .null => .good .null
  | v => read v

/-- The declared fields of an object, in their order. -/
def readFields (ms : Members Value) : List Field → Checked (Members Value)
  | [] => .good []
  | (name, read) :: rest =>
    (fun v more => (name, v) :: more) <$> optional ms name .null read <*> readFields ms rest

/-- A section with declared fields, the undeclared ones kept behind them. -/
def section_ (shape : String) (fields : List Field) : Reader Value :=
  record shape fun ms =>
    (readFields ms fields).map fun known =>
      .obj (known ++ ms.filter fun (k, _) => !(fields.any fun f => f.1 = k))

/-- A text, or a section of the given shape; a value that is neither has the faults of both. -/
def textOr (shape : String) (read : Reader Value) : Reader Value
  | .str s => .good (.str s)
  | v =>
    match read v with
    | .good a => .good a
    | .bad faults => .bad (⟨["str"], .notText⟩ :: (Checked.bad (α := Value) faults |>.under shape).faults)

/-- A KPI names its metric by a key, a column or an id. -/
def kpi : Reader Value := fun v =>
  (section_ "KpiSpec" (["key", "id", "column", "label", "format"].map (·, optionalText)) v).refine
    fun k =>
      if ["key", "column", "id"].any fun name => ((k.member? name).getD .null).isTruthy then .good k
      else fail .unidentifiedKpi

def chart : Reader Value :=
  section_ "ChartSpec" [("type", optionalText), ("title", optionalText)]

def funnelStage : Reader Value :=
  section_ "FunnelStage" [("label", optionalText), ("column", optionalText)]

def funnel : Reader Value :=
  section_ "FunnelSpec"
    (["stages", "steps"].map (·, optionalList (textOr "FunnelStage" funnelStage)))

def filter : Reader Value :=
  section_ "FilterSpec" [("field", optionalText), ("type", optionalText)]

def tab : Reader Value := section_ "TabSpec" [("name", optionalText), ("label", optionalText)]

def tabs : Reader Value := optionalList (textOr "TabSpec" tab)

def ui : Reader Value := section_ "UiSpec" [("tabs", tabs)]

/-- The whole document. -/
def dashboard : Reader Value :=
  section_ "DashboardSpec"
    [("version", optionalInteger), ("title", optionalText), ("kpis", optionalList kpi),
     ("charts", optionalList chart), ("funnel", optionally funnel), ("filters", optionalList filter),
     ("tabs", tabs), ("ui", optionally ui)]

end Typed

end Dashboards
