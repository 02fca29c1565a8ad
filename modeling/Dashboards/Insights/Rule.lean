import Dashboards.Insights.Finding
import Dashboards.Shape.Scalar

/-!
# Rules

A rule looks at the metrics of two periods and at the rows of the current one, and may come to a
finding. Rules are run apart from each other: one that fails is left out. The findings are ordered
by priority, equal priorities in the order of the catalog.
-/

namespace Dashboards

namespace Insights

/-- The metrics of the current period, those of the previous one if there are any, and the days of
the current one. -/
structure Periods (α : Type) where
  current : Row α
  previous : Option (Row α)
  days : List (Row α)

/-- The thresholds of the rules, most of them in percent. -/
structure Config (α : Type) where
  minVariation : α
  minSampleDays : Int
  cplWarning : α
  cplDecrease : α
  cacWarning : α
  leadsDrop : α
  leadsGrowth : α
  conversionDrop : α
  bottleneck : α
  deviations : α
  maxOutliers : Int
  minObservations : Int
  disabled : List String

namespace Config

def default : Config Float where
  minVariation := 15.0
  minSampleDays := 3
  cplWarning := 20.0
  cplDecrease := 15.0
  cacWarning := 25.0
  leadsDrop := 20.0
  leadsGrowth := 20.0
  conversionDrop := 15.0
  bottleneck := 50.0
  deviations := 2.0
  maxOutliers := 2
  minObservations := 7
  disabled := []

open Shape in
def read : Reader (Config Float) :=
  record "InsightRulesConfig" fun ms =>
    let threshold (name : String) (d : Float) := optional ms name d float
    let count (name : String) (d : Int) := optional ms name d integer
    Config.mk <$> threshold "min_variation_percent" default.minVariation <*>
      count "min_sample_days" default.minSampleDays <*>
      threshold "cpl_warning_threshold" default.cplWarning <*>
      threshold "cpl_decrease_threshold" default.cplDecrease <*>
      threshold "cac_warning_threshold" default.cacWarning <*>
      threshold "leads_drop_threshold" default.leadsDrop <*>
      threshold "leads_growth_threshold" default.leadsGrowth <*>
      threshold "conversion_drop_threshold" default.conversionDrop <*>
      threshold "bottleneck_threshold" default.bottleneck <*>
      threshold "anomaly_std_dev_multiplier" default.deviations <*>
      count "anomaly_max_outliers" default.maxOutliers <*>
      count "anomaly_min_observations" default.minObservations <*>
      optional ms "disabled_rules" [] (list text)

/-- The same thresholds in other numbers. -/
def map {α β : Type} (f : α → β) (c : Config α) : Config β where
  minVariation := f c.minVariation
  minSampleDays := c.minSampleDays
  cplWarning := f c.cplWarning
  cplDecrease := f c.cplDecrease
  cacWarning := f c.cacWarning
  leadsDrop := f c.leadsDrop
  leadsGrowth := f c.leadsGrowth
  conversionDrop := f c.conversionDrop
  bottleneck := f c.bottleneck
  deviations := f c.deviations
  maxOutliers := c.maxOutliers
  minObservations := c.minObservations
  disabled := c.disabled

def toValue (c : Config Float) : Value :=
  .obj [("min_variation_percent", .ofFloat c.minVariation),
    ("min_sample_days", .ofInt c.minSampleDays), ("cpl_warning_threshold", .ofFloat c.cplWarning),
    ("cpl_decrease_threshold", .ofFloat c.cplDecrease),
    ("cac_warning_threshold", .ofFloat c.cacWarning),
    ("leads_drop_threshold", .ofFloat c.leadsDrop),
    ("leads_growth_threshold", .ofFloat c.leadsGrowth),
    ("conversion_drop_threshold", .ofFloat c.conversionDrop),
    ("bottleneck_threshold", .ofFloat c.bottleneck),
    ("anomaly_std_dev_multiplier", .ofFloat c.deviations),
    ("anomaly_max_outliers", .ofInt c.maxOutliers),
    ("anomaly_min_observations", .ofInt c.minObservations),
    ("disabled_rules", .ofStrings c.disabled)]

end Config

/-- A rule: when it is run, and what it finds. -/
structure Rule (α : Type) where
  id : String
  leastDays : Nat
  enabled : Bool
  check : Periods α → Config α → Calculated (Option (Finding α))

variable {α : Type}

/-- Whether a rule is run at all, where the rules with some ids are disabled. -/
def Rule.runs (rule : Rule α) (disabled : List String) (days : Nat) : Bool :=
  rule.enabled && !disabled.contains rule.id && decide (rule.leastDays ≤ days)

/-- The finding of a rule that is run and does not fail. -/
def Rule.finding? (rule : Rule α) (disabled : List String) (periods : Periods α)
    (config : Config α) : Option (Finding α) :=
  if rule.runs disabled periods.days.length then
    match rule.check periods config with
    | .ok found => found
    | .error _ => none
  else none

/-- The findings of a catalog in which some rules are disabled, the most severe ones first. -/
def findingsWithout (disabled : List String) (catalog : List (Rule α)) (periods : Periods α)
    (config : Config α) : List (Finding α) :=
  (catalog.filterMap fun rule => rule.finding? disabled periods config).mergeSort fun a b =>
    a.priority.rank ≤ b.priority.rank

/-- The findings of a catalog of rules. The configuration says which of them are disabled. -/
def findings (catalog : List (Rule α)) (periods : Periods α) (config : Config α) :
    List (Finding α) :=
  findingsWithout config.disabled catalog periods config

end Insights

end Dashboards
