import Dashboards.Document.NonFinite
import Dashboards.Document.Typed
import Dashboards.Patch.Apply
import Dashboards.Policy.Basic

/-!
# Structural validation

A document is valid when it is an object, holds finite numbers only and has its typed sections in
their declared shape. Warnings do not make it invalid. The sizes of collections are counted in two
ways, along the members of objects and along a pointer.
-/

namespace Dashboards

namespace Value

/-- The number of items of the list under the given member names; zero where there is none. What a
preview counts and what the validation counts are both counted in this way. -/
def countAt : Value → List String → Nat
  | .arr xs, [] => xs.length
  | .obj ms, k :: ks =>
    match Members.get? ms k with
    | some v => countAt v ks
    | none => 0
  | _, _ => 0
termination_by structural _ keys => keys

end Value

/-- The number of items of what was found: zero where it is no list. -/
def lengthOf (found : Option Value) : Nat := ((found.bind Value.items?).getD []).length

/-- The number of items of the list that a pointer resolves to: zero where it resolves to none. The
ceilings of a policy are measured in this way. -/
def Patch.lengthAt (p : Pointer) (doc : Value) : Except Patch.Fault Nat :=
  (Patch.valueAt p doc).map lengthOf

/-- What structural validation found. -/
structure Findings where
  errors : List String
  warnings : List String

def sectionFault (f : Shape.Fault) : String :=
  if f.place.isEmpty then f.cause.message else f.message

/-- Validates a document; `detailsTab` is the tab that it is expected to have. -/
def validateStructure (doc : Value) (detailsTab : String) : Findings :=
  match doc with
  | .obj ms =>
    let numbers := (doc.nonFinite "").map fun path => s!"Invalid number (NaN/Infinity) at {path}"
    let sections := (Typed.dashboard doc).faults.map sectionFault
    let content := doc.countAt ["kpis"] + doc.countAt ["charts"] +
      doc.countAt ["funnel", "stages"] + doc.countAt ["funnel", "steps"]
    let version := if Members.contains ms "version" then [] else ["Dashboard has no version"]
    let empty := if content = 0 then ["Dashboard has no KPIs, charts or funnel stages"] else []
    let details :=
      if (tabNames doc).contains detailsTab then [] else [s!"Dashboard has no '{detailsTab}' tab"]
    ⟨numbers ++ sections, version ++ empty ++ details⟩
  | v => ⟨[s!"Dashboard document must be an object, got {v.kindName}"], []⟩

end Dashboards
