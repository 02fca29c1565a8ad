import Dashboards.Date
import Dashboards.Simulation

/-!
# Records of a history

The history of a dashboard is a list of records, one for each version. A record holds the document as
it was stored, with its own version number in it, and who stored it, when and why.
-/

namespace Dashboards

/-- A moment, in seconds since the start of 1970. -/
structure Moment where
  seconds : Nat
  deriving DecidableEq, Repr

namespace Moment

/-- The date and the time of day in universal time. -/
def text (m : Moment) : String :=
  let date := Date.ofEpochDay (m.seconds / 86400 : Nat)
  let second := m.seconds % 86400
  let time := [second / 3600, second / 60 % 60, second % 60].map (Date.padded 2)
  date.text ++ "T" ++ ":".intercalate time ++ "+00:00"

def next (m : Moment) : Moment := ⟨m.seconds + 1⟩

end Moment

namespace History

/-- What somebody wants to be stored as a version. -/
structure Draft where
  document : Value
  author : Option String
  note : Option String

/-- One version of a dashboard. -/
structure Record where
  version : Int
  document : Document
  createdAt : String
  author : Option String
  note : Option String

namespace Record

/-- A record without its document, as histories list it. -/
def summary (r : Record) : Members Value :=
  [("version", .ofInt r.version), ("createdAt", .str r.createdAt),
   ("createdBy", .ofOption .str r.author), ("note", .ofOption .str r.note)]

def members (r : Record) : Members Value := ("document", .obj r.document) :: r.summary

def toValue (r : Record) : Value := .obj r.members

end Record

/-- A document to be stored as a version: the number goes into it, if it is an object. -/
def stamp (doc : Value) (version : Int) : Value :=
  match doc with
  | .obj ms => .obj (Document.stamped ms version)
  | v => v

/-- The note of a version that brings an earlier one back. -/
def rollbackNote (target : Int) : String := s!"Rollback to version {target}"

/-- The record of a version. Its number is positive and its document is an object. -/
def Record.make (version : Int) (document : Value) (createdAt : String)
    (author note : Option String) : Shape.Checked Record :=
  (fun v d => Record.mk v d createdAt author note) <$>
    (Shape.integerAtLeast 1 (.ofInt version)).under "version" <*>
    (Document.read document).under "document"

end History

end Dashboards
