import Dashboards.Json.Writer
import Dashboards.Policy.Basic

/-!
# Prompts

What a collaborator is told: the form of its answer, the rules that a policy sets, the document, the
columns it may refer to and the request.
-/

namespace Dashboards

namespace Prompt

/-- The standing instruction on the form of answers. -/
def instruction : String :=
  "You edit dashboard specifications. Answer ONLY with a JSON object of the form \x7b\"patch\": " ++
    "[<JSON Patch operations>], \"summary\": [<short strings>], \"warnings\": [<short strings>], " ++
    "\"confidence\": <number between 0 and 1>\x7d. " ++
    "Never include explanations outside the JSON object."

/-- A sentence that ends in the names of a list. -/
def listing (start : String) (names : List String) : String :=
  start ++ ", ".intercalate names ++ "."

/-- The rules of a policy. -/
def rules (p : Policy) : List String :=
  let tabs := if ", ".intercalate p.protectedTabs = "" then ["none"] else p.protectedTabs
  ["Use JSON Patch operations: add, remove, replace, move, copy, test.",
   listing "Only edit these paths: " p.allowedPaths,
   listing "Never touch: " p.blockedPaths,
   s!"At most {p.maxKpis} KPIs, {p.maxCharts} charts, {p.maxFunnelSteps} funnel steps, " ++
     s!"{p.maxFilters} filters and {p.maxTabs} tabs.",
   listing "Never remove these tabs: " tabs,
   "Only reference columns from the available fields list.",
   "Append to arrays with the '-' index."] ++
    (if p.allowCreateNewTabs then [] else ["Do not create new tabs."]) ++
    (if p.allowRemoveTabs then [] else ["Do not remove tabs."])

/-- The message that asks for an edit of a document. -/
def edit (p : Policy) (doc : Value) (fields : List String) (request : String) : String :=
  "\n".intercalate <|
    "RULES:" :: (rules p).map ("- " ++ ·) ++
      ["", "CURRENT DASHBOARD:", Json.indented 0 doc,
       "", "AVAILABLE FIELDS:", Json.line (.spaced false) (.ofStrings fields),
       "", "REQUEST:", request]

end Prompt

end Dashboards
