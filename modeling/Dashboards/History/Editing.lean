import Dashboards.History.Question
import Dashboards.Json.Limits

/-!
# Editing a stored dashboard

A patch is simulated against the current version. A commit simulates it again and then swaps the
version it has read for the new one; the archive refuses the swap when another version came in
between. A rollback stores an earlier document once more.
-/

namespace Dashboards

namespace History

namespace Conversation

/-- A copy of a value, which there is unless the value is nested too deeply to be copied. -/
def copied (room : Option Nat) (v : Value) : Except Fault Value :=
  if v.fits room then .ok v else .error (.beyond .deepDocument)

/-- A dry run of a patch against a record, unless the patch is given up. -/
def dryRun (rules : EditRules) (record : Record) (expected : Int) (ops : List Operation) :
    Except Fault Simulation :=
  let s := rules.simulate record.document record.version expected ops
  match s.excess? with
  | some excess => .error (.beyond excess)
  | none =>
    -- A patch that was made for another version is refused before anything is copied.
    if expected ≠ record.version || (Patch.copies (.obj record.document) ops).all (·.fits rules.room)
      then .ok s
    else .error (.beyond .deepDocument)

/-- Dry-runs a patch against the current version. -/
def simulate (rules : EditRules) (id : String) (expected : Int) (ops : List Operation) :
    Conversation Simulation := do
  let record ← current id
  ExceptT.mk (pure (dryRun rules record expected ops))

/-- Why a simulation cannot be committed. A stale version comes before everything else. -/
def refusal (expected : Int) (record : Record) (s : Simulation) : Fault :=
  if s.isStale then .stale expected record.version
  else .rejected s.issues

/-- A copy of what a patch makes of a record, with the simulation that approves of it. -/
def approve (rules : EditRules) (record : Record) (expected : Int) (ops : List Operation) :
    Except Fault (Value × Simulation) := do
  let s ← dryRun rules record expected ops
  if s.valid then
    let new ← copied rules.room (.ofOption .obj s.newDocument)
    pure (new, s)
  else throw (refusal expected record s)

/-- Simulates a patch against the current version and stores a copy of the result as the next one. -/
def commit (rules : EditRules) (id : String) (expected : Int) (ops : List Operation)
    (author note : Option String) : Conversation (Record × Simulation) := do
  let record ← current id
  let (new, s) ← ExceptT.mk (pure (approve rules record expected ops))
  let committed ← put id record.version ⟨new, author, note⟩
  pure (committed, s)

/-- Stores the document of an earlier version, which was copied before, as the next one. -/
def rollback (id : String) (target : Int) (author : Option String) : Conversation Record := do
  let earlier ← version id target
  let latest ← current id
  put id latest.version ⟨.obj earlier.document, author, some (rollbackNote target)⟩

end Conversation

end History

end Dashboards
