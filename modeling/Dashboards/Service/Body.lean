import Dashboards.Document.NonFinite
import Dashboards.Date
import Dashboards.Integrity.Check
import Dashboards.Patch.Operation
import Dashboards.Simulation

/-!
# Bodies of requests

The declared shape of each body. A dump shows a body with its defaults filled in; in those of its
parts whose shape is not declared, numbers that are not finite are shown as `null`.
-/

namespace Dashboards

/-- All fields of an operation. -/
def Operation.dump (op : Operation) : Value :=
  .obj [("op", .str op.verb.text), ("path", .str op.path), ("value", op.value.finiteOnly),
    ("from", .ofOption .str op.source)]

namespace Service

open Shape

/-- The operations of a patch, of which there is at least one. -/
def patchIn (ms : Members Value) : Checked (List Operation) :=
  required ms "operations" (nonEmptyList Operation.read)

def dumpOperations (ops : List Operation) : Value := .arr (ops.map (·.dump))

/-- A new dashboard. -/
structure CreateBody where
  id : Option String
  document : Document
  note : Option String

namespace CreateBody

def fields (ms : Members Value) : Checked CreateBody :=
  CreateBody.mk <$> nullableField ms "dashboardId" (textWithin 1 none) <*>
    optional ms "document" [] Document.read <*> nullableField ms "note" text

def read : Reader CreateBody := record "CreateDashboardRequest" fields

def dump (b : CreateBody) : Value :=
  .obj [("dashboardId", .ofOption .str b.id), ("document", (Value.obj b.document).finiteOnly),
    ("note", .ofOption .str b.note)]

end CreateBody

/-- A patch to be tried, made for some version. -/
structure SimulateBody where
  version : Int
  operations : List Operation

namespace SimulateBody

def fields (ms : Members Value) : Checked SimulateBody :=
  SimulateBody.mk <$> required ms "currentVersion" (integerAtLeast 0) <*> patchIn ms

def read : Reader SimulateBody := record "SimulatePatchRequest" fields

def dump (b : SimulateBody) : Value :=
  .obj [("currentVersion", .ofInt b.version), ("operations", dumpOperations b.operations)]

end SimulateBody

/-- A patch to be committed, made for some version. -/
structure CommitBody where
  version : Int
  operations : List Operation
  note : Option String

namespace CommitBody

def fields (ms : Members Value) : Checked CommitBody :=
  CommitBody.mk <$> required ms "expectedVersion" (integerAtLeast 0) <*> patchIn ms <*>
    nullableField ms "note" text

def read : Reader CommitBody := record "CommitPatchRequest" fields

def dump (b : CommitBody) : Value :=
  .obj [("expectedVersion", .ofInt b.version), ("operations", dumpOperations b.operations),
    ("note", .ofOption .str b.note)]

end CommitBody

/-- An earlier version to be brought back. -/
structure RollbackBody where
  target : Int

namespace RollbackBody

def fields (ms : Members Value) : Checked RollbackBody :=
  RollbackBody.mk <$> required ms "targetVersion" (integerAtLeast 1)

def read : Reader RollbackBody := record "RollbackRequest" fields

def dump (b : RollbackBody) : Value := .obj [("targetVersion", .ofInt b.target)]

end RollbackBody

/-- An edit to be proposed, in words, and the columns it may refer to. -/
structure ProposeBody where
  wish : String
  columns : List String

namespace ProposeBody

def longestWish : Nat := 4000

def fields (ms : Members Value) : Checked ProposeBody :=
  ProposeBody.mk <$> required ms "userRequest" (textWithin 1 (some longestWish)) <*>
    optional ms "availableFields" [] (list text)

def read : Reader ProposeBody := record "ProposeEditRequest" fields

def dump (b : ProposeBody) : Value :=
  .obj [("userRequest", .str b.wish), ("availableFields", .ofStrings b.columns)]

end ProposeBody

/-- Data to draw insights from; metrics that are not given are computed from the rows. -/
structure InsightsBody where
  rows : List Integrity.Record
  previousRows : Option (List Integrity.Record)
  metrics : Option (Members Float)
  previousMetrics : Option (Members Float)
  range : DateRange
  config : Option Integrity.Config
  source : String

namespace InsightsBody

def defaultSource : String := "dashboard-data"

def row : Reader Integrity.Record := mapping anything

def fields (ms : Members Value) : Checked InsightsBody :=
  InsightsBody.mk <$> optional ms "rows" [] (list row) <*>
    nullableField ms "previousRows" (list row) <*>
    nullableField ms "aggregates" (mapping float) <*>
    nullableField ms "previousAggregates" (mapping float) <*>
    required ms "dateRange" DateRange.read <*>
    nullableField ms "validatorConfig" Integrity.Config.read <*>
    optional ms "source" defaultSource text

def read : Reader InsightsBody := record "InsightsRequest" fields

def dumpRows (rows : List Integrity.Record) : Value :=
  .arr (rows.map fun r => (Value.obj r).finiteOnly)

def dumpMetrics (metrics : Members Float) : Value := .obj (metrics.mapValues .ofFloat)

def dump (b : InsightsBody) : Value :=
  .obj [("rows", dumpRows b.rows), ("previousRows", .ofOption dumpRows b.previousRows),
    ("aggregates", .ofOption dumpMetrics b.metrics),
    ("previousAggregates", .ofOption dumpMetrics b.previousMetrics),
    ("dateRange", b.range.toValue), ("validatorConfig", .ofOption (·.toValue) b.config),
    ("source", .str b.source)]

end InsightsBody

end Service

end Dashboards
