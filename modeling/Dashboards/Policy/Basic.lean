import Dashboards.Pointer

/-!
# The edit policy

A policy names the sections of a document that patches may edit and those they may not, the ceilings
of the bounded collections, whether tabs may come and go, and the tabs that have to stay.
-/

namespace Dashboards

structure Policy where
  allowedPaths : List String
  blockedPaths : List String
  maxKpis : Int
  maxCharts : Int
  maxFunnelSteps : Int
  maxFilters : Int
  maxTabs : Int
  allowCreateNewTabs : Bool
  allowRemoveTabs : Bool
  protectedTabs : List String

/-- Sections that no patch may touch: tenant isolation and secrets. -/
def defaultBlockedPaths : List String :=
  ["/data_source_id", "/dataset_id", "/dataset_ref", "/tenant_id", "/credentials", "/secrets",
   "/api_keys", "/datasource"]

/-- The top-level sections that a patch may edit. -/
def defaultAllowedPaths : List String :=
  ["/title", "/version", "/time", "/columns", "/kpis", "/funnel", "/charts", "/ui", "/filters",
   "/table", "/layout", "/labels", "/formatting", "/tabs", "/goals", "/metadata"]

def Policy.default : Policy where
  allowedPaths := defaultAllowedPaths
  blockedPaths := defaultBlockedPaths
  maxKpis := 8
  maxCharts := 4
  maxFunnelSteps := 7
  maxFilters := 10
  maxTabs := 6
  allowCreateNewTabs := true
  allowRemoveTabs := true
  protectedTabs := ["Details"]

/-- The collections whose length is bounded. -/
inductive Collection where
  | kpis
  | charts
  | filters
  | tabs
  | uiTabs
  | funnelStages
  | funnelSteps
  deriving DecidableEq, Repr

namespace Collection

def all : List Collection := [.kpis, .charts, .filters, .tabs, .uiTabs, .funnelStages, .funnelSteps]

/-- The two places where a document may keep its tabs. -/
def tabHolders : List Collection := [.tabs, .uiTabs]

def keys : Collection → List String
  | .kpis => ["kpis"]
  | .charts => ["charts"]
  | .filters => ["filters"]
  | .tabs => ["tabs"]
  | .uiTabs => ["ui", "tabs"]
  | .funnelStages => ["funnel", "stages"]
  | .funnelSteps => ["funnel", "steps"]

def ofKeys? (ks : List String) : Option Collection := all.find? fun c => c.keys = ks

def label : Collection → String
  | .kpis => "KPIs"
  | .charts => "charts"
  | .filters => "filters"
  | .tabs | .uiTabs => "tabs"
  | .funnelStages | .funnelSteps => "funnel steps"

def holdsTabs (c : Collection) : Bool := tabHolders.contains c

def pointer (c : Collection) : Pointer := ⟨c.keys⟩

/-- The items of the collection in a document; none when there is no list at its place. -/
def itemsIn (c : Collection) (doc : Value) : List Value :=
  match doc.at? c.keys with
  | some (.arr xs) => xs
  | _ => []

def lengthIn (c : Collection) (doc : Value) : Nat := (c.itemsIn doc).length

end Collection

def Policy.limit (p : Policy) : Collection → Int
  | .kpis => p.maxKpis
  | .charts => p.maxCharts
  | .filters => p.maxFilters
  | .tabs | .uiTabs => p.maxTabs
  | .funnelStages | .funnelSteps => p.maxFunnelSteps

/-- The entries of a list of paths that are pointers; the others are passed over. -/
def parsedPaths (paths : List String) : List Pointer :=
  paths.filterMap fun s => (Pointer.parse s).toOption

def Policy.blocked (p : Policy) : List Pointer := parsedPaths p.blockedPaths

def Policy.allowed (p : Policy) : List Pointer := parsedPaths p.allowedPaths

/-! ## Tabs -/

/-- The name of a tab: the tab itself when it is a text, else its `name`, or its `label` when it has
no `name` at all. -/
def tabName? : Value → Option String
  | .str s => some s
  | .obj ms =>
    match (Members.get? ms "name").orElse fun _ => Members.get? ms "label" with
    | some (.str s) => some s
    | _ => none
  | _ => none

/-- The names of the tabs of a document, from `/ui/tabs` if a list is there and else from `/tabs`. -/
def tabNames (doc : Value) : List String :=
  let names (xs : List Value) := xs.filterMap tabName?
  match doc.at? Collection.uiTabs.keys with
  | some (.arr xs) => names xs
  | _ =>
    match doc.at? Collection.tabs.keys with
    | some (.arr xs) => names xs
    | _ => []

end Dashboards
