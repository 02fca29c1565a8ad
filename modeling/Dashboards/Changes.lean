import Dashboards.Json.Display
import Dashboards.Json.Equality
import Dashboards.Patch.Operation
import Dashboards.Document.Structure

/-!
# What a patch changes

The preview of a document counts its collections and names its tabs. The summary of a patch compares
the previews of the documents before and after it: collections that grew or shrank, tabs that came
and went, and a new title. Where it finds nothing, it lists the operations themselves.
-/

namespace Dashboards

/-- The sizes of a document's collections and the names of its tabs. -/
structure Preview where
  kpis : Nat
  charts : Nat
  tabs : List String
  funnelSteps : Nat
  filters : Nat
  deriving DecidableEq

namespace Preview

/-- The preview of a document. A funnel has stages or, where it has none, steps. -/
def ofDocument (doc : Value) : Preview where
  kpis := doc.countAt ["kpis"]
  charts := doc.countAt ["charts"]
  tabs := tabNames doc
  funnelSteps :=
    match doc.countAt ["funnel", "stages"] with
    | 0 => doc.countAt ["funnel", "steps"]
    | n => n
  filters := doc.countAt ["filters"]

def toValue (p : Preview) : Value :=
  .obj [("kpisCount", .ofNat p.kpis), ("chartsCount", .ofNat p.charts), ("tabs", .ofStrings p.tabs),
    ("funnelSteps", .ofNat p.funnelSteps), ("filtersCount", .ofNat p.filters)]

end Preview

/-- One line of a summary. -/
inductive Change where
  | resized (label : String) (old new : Nat)
  | tabsAdded (names : List String)
  | tabsRemoved (names : List String)
  | retitled (old new : Value)
  | operation (verb : Verb) (path : String)
  | more (count : Int)

namespace Change

/-- An integer with its sign, `+` for zero. -/
def signed (n : Int) : String := if n < 0 then toString n else s!"+{n}"

def text : Change → String
  | .resized label old new =>
    let delta := signed ((new : Int) - (old : Int))
    s!"{label}: {old} -> {new} ({delta})"
  | .tabsAdded names => "Tabs added: " ++ ", ".intercalate names
  | .tabsRemoved names => "Tabs removed: " ++ ", ".intercalate names
  | .retitled old new => s!"Title: {old.shown} -> {new.shown}"
  | .operation verb path =>
    let place := if path = "" then "/" else path
    s!"{verb.text} {place}"
  | .more count => s!"... and {count} more"

end Change

/-- The collections whose sizes a summary reports. -/
def summarizedCollections : List (String × List String) :=
  [("KPIs", ["kpis"]), ("Charts", ["charts"]), ("Funnel stages", ["funnel", "stages"]),
   ("Funnel steps", ["funnel", "steps"]), ("Filters", ["filters"])]

/-- The first `limit` items; a negative limit leaves out as many items at the end. -/
def firstItems {α : Type} (limit : Int) (xs : List α) : List α :=
  if 0 ≤ limit then xs.take limit.toNat else xs.take (xs.length - (-limit).toNat)

/-- Whether two titles count as the same. A title that is a NaN is never the same. -/
def sameTitle (a b : Value) : Bool :=
  match a with
  | .num n => !n.isNaN && a.looseEqual b
  | _ => a.looseEqual b

/-- The new title, if both documents are objects and their titles differ. -/
def retitling? (before after : Value) : Option Change :=
  if before.isObject && after.isObject then
    let old := (before.member? "title").getD .null
    let new := (after.member? "title").getD .null
    if sameTitle old new then none else some (.retitled old new)
  else none

/-- The first operations of a patch and the number of those left out. -/
def listedOperations (limit : Int) (ops : List Operation) : List Change :=
  let rest := (ops.length : Int) - limit
  (firstItems limit ops).map (fun op => .operation op.verb op.path) ++
    if 0 < rest then [.more rest] else []

/-- The summary of a patch that led from one document to another. -/
def changesBetween (before after : Value) (ops : List Operation) (limit : Int) : List Change :=
  let sizes := summarizedCollections.filterMap fun (label, keys) =>
    let old := before.countAt keys
    let new := after.countAt keys
    if old = new then none else some (.resized label old new)
  let (oldTabs, newTabs) := (tabNames before, tabNames after)
  let added := newTabs.filter fun t => !oldTabs.contains t
  let removed := oldTabs.filter fun t => !newTabs.contains t
  let found := sizes ++ (if added.isEmpty then [] else [.tabsAdded added]) ++
    (if removed.isEmpty then [] else [.tabsRemoved removed]) ++
    (retitling? before after).toList
  if found.isEmpty then listedOperations limit ops else found

end Dashboards
