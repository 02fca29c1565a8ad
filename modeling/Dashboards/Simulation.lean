import Dashboards.Changes
import Dashboards.Patch.Run

/-!
# Simulating a patch

A simulation is a dry run: the version the patch was made for has to be the current one, the patch
has to be accepted by the policy and to apply, and the patched document has to be valid. A
simulation without issues is what a commit would store.
-/

namespace Dashboards

/-- A document of a dashboard: the members of its root object. -/
abbrev Document := Members Value

namespace Document

def read : Shape.Reader Document := Shape.mapping Shape.anything

/-- The document with its `version` member set. -/
def stamped (doc : Document) (version : Int) : Document := doc.set "version" (.ofInt version)

end Document

/-- The outcome of a dry run. There is a new document whenever the patch applied and left an
object. -/
structure Simulation where
  valid : Bool
  newDocument : Option Document
  currentDocument : Document
  changes : List Change
  issues : List Issue
  warnings : List String
  preview : Option Preview
  currentVersion : Int

namespace Simulation

/-- A dry run that came to no new document. -/
def refused (doc : Document) (version : Int) (issues : List Issue) (warnings : List String) :
    Simulation where
  valid := false
  newDocument := none
  currentDocument := doc
  changes := []
  issues := issues
  warnings := warnings
  preview := none
  currentVersion := version

/-- The version that a commit would create. -/
def willBeVersion (s : Simulation) : Int := s.currentVersion + 1

/-- Whether the patch was made for another version than the current one. -/
def isStale (s : Simulation) : Bool := s.issues.any fun i => i.code = .versionConflict

/-- The bound at which the dry run was given up. -/
def excess? (s : Simulation) : Option Excess := s.issues.findSome? (·.excess?)

def toValue (s : Simulation) : Value :=
  .obj [("valid", .bool s.valid), ("newDocument", .ofOption .obj s.newDocument),
    ("currentDocument", .obj s.currentDocument), ("diffSummary", .ofStrings (s.changes.map (·.text))),
    ("errors", .arr (s.issues.map (·.toValue))), ("warnings", .ofStrings s.warnings),
    ("previewMetrics", .ofOption (·.toValue) s.preview), ("currentVersion", .ofInt s.currentVersion),
    ("willBeVersion", .ofInt s.willBeVersion)]

end Simulation

/-- How patches are judged and carried out: the policy, how many operations a summary lists, and how
deep at most what is copied may be nested, if there is such a bound. -/
structure EditRules where
  policy : Policy
  listed : Int
  room : Option Nat

namespace EditRules

/-- The tab that a document is expected to have. -/
def detailsTab (rules : EditRules) : String := rules.policy.protectedTabs.head?.getD "Details"

/-- What is wrong with the structure of a document, as issues of no operation. -/
def structureIssues (findings : Findings) : List Issue :=
  findings.errors.map fun message => ⟨.malformed message, none, none⟩

/-- The outcome of a patch that applied. -/
def judge (rules : EditRules) (doc : Document) (version : Int) (ops : List Operation)
    (patched : Value) : Simulation :=
  let findings := validateStructure patched rules.detailsTab
  let issues := structureIssues findings
  match patched with
  | .obj new =>
    { valid := issues.isEmpty
      newDocument := some new
      currentDocument := doc
      changes := changesBetween (.obj doc) patched ops rules.listed
      issues := issues
      warnings := findings.warnings
      preview := some (Preview.ofDocument patched)
      currentVersion := version }
  -- The root is no object any more, which no version can hold.
  | _ => .refused doc version issues findings.warnings

/-- Dry-runs a patch that was made for version `expected` of a document. -/
def simulate (rules : EditRules) (doc : Document) (version expected : Int) (ops : List Operation) :
    Simulation :=
  if expected ≠ version then
    .refused doc version [⟨.staleVersion expected version, none, none⟩] []
  else
    -- The issues of all operations come before any attempt to apply them.
    match rules.policy.checkInTurn 0 (.obj doc) ops with
    | [] =>
      let result := Patch.applyUnder rules.policy (.obj doc) ops
      if result.applied then rules.judge doc version ops result.document
      else .refused doc version result.issues []
    | issues => .refused doc version issues []

end EditRules

end Dashboards
