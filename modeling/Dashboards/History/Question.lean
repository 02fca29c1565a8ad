import Dashboards.Dialogue
import Dashboards.Failure
import Dashboards.History.Record
import Dashboards.Json.Reader

/-!
# Questions to an archive

An archive keeps the histories of dashboards. What it can be asked, and the kind of its answers, is
the same for every archive; where the histories are kept is not said here.
-/

namespace Dashboards

namespace History

/-- Why an archive does not do what it is asked. The first four are the caller's concern. -/
inductive Fault where
  | unknownDashboard (id : String)
  | unknownVersion (id : String) (version : Int)
  | takenId (id : String)
  | stale (expected actual : Int)
  | rejected (issues : List Issue)
  | misshapen (faults : List Shape.Fault)
  | unreadable (text : String) (fault : Json.Fault)
  | beyond (excess : Excess)
  | noRow
  | duplicateKey

namespace Fault

private def idDetails (id : String) : Members Value := [("dashboardId", .str id)]

/-- The failure of a patch with issues: that of the first one, with all of them as details. -/
def rejection (first : Issue) (rest : List Issue) : Failure where
  code := first.code
  message := if rest.isEmpty then first.message else s!"{first.message} (+{rest.length} more)"
  details := some (.obj [("errors", .arr ((first :: rest).map (·.toValue)))])

/-- The failure as callers of the service see it, unless the cause is not theirs to know. -/
def failure? : Fault → Option Failure
  | .unknownDashboard id => some ⟨.notFound, s!"Dashboard {id} not found", some (.obj (idDetails id))⟩
  | .unknownVersion id version =>
    some ⟨.notFound, s!"Version {version} of dashboard {id} not found",
      some (.obj (idDetails id ++ [("version", .ofInt version)]))⟩
  | .takenId id =>
    some ⟨.validationError, s!"Dashboard {id} already exists", some (.obj (idDetails id))⟩
  | .stale expected actual =>
    some ⟨.versionConflict, staleVersionMessage expected actual,
      some (staleVersionDetails expected actual)⟩
  | .rejected (first :: rest) => some (rejection first rest)
  | _ => none

end Fault

/-- The id that is given out after `count` others: 32 hexadecimal digits. -/
def idText (count : Nat) : String :=
  let digits := Nat.toDigits 16 (count + 1)
  String.ofList (List.replicate (32 - digits.length) '0' ++ digits)

/-- What an archive can be asked. -/
inductive Question where
  | freshId
  | create (id : String) (first : Draft)
  | find (id : String)
  | current (id : String)
  | version (id : String) (number : Int)
  | commit (id : String) (expected : Int) (next : Draft)
  | newest (id : String) (limit : Int)

/-- The answers to a question. -/
@[reducible] def Answer : Question → Type
  | .freshId => String
  | .create .. | .find _ => Except Fault Unit
  | .current _ | .version .. | .commit .. => Except Fault Record
  | .newest .. => Except Fault (List Record)

/-- A dialogue with an archive, which ends early where an answer is a fault. -/
abbrev Conversation (α : Type) := ExceptT Fault (Dialogue Answer) α

namespace Conversation

def find (id : String) : Conversation Unit := ExceptT.mk (Dialogue.question (Question.find id))

def current (id : String) : Conversation Record := ExceptT.mk (Dialogue.question (Question.current id))

def version (id : String) (number : Int) : Conversation Record :=
  ExceptT.mk (Dialogue.question (Question.version id number))

/-- Stores a draft as the version after `expected`, which has to be the current one. -/
def put (id : String) (expected : Int) (next : Draft) : Conversation Record :=
  ExceptT.mk (Dialogue.question (Question.commit id expected next))

/-- The newest records first. -/
def newest (id : String) (limit : Int) : Conversation (List Record) :=
  ExceptT.mk (Dialogue.question (Question.newest id limit))

/-- Starts the history of a dashboard, under a fresh id where none is given, and ends with the id. -/
def create (id : Option String) (first : Draft) : Conversation String := do
  let id ←
    match id with
    | none | some "" => ExceptT.lift (Dialogue.question Question.freshId)
    | some id => pure id
  ExceptT.mk (Dialogue.question (Question.create id first))
  pure id

end Conversation

end History

end Dashboards
