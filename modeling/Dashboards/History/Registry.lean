import Dashboards.History.Question

/-!
# The registry in memory

The registry keeps every history as the list of its records, oldest first. A history is only ever
extended at its end. The clock is read once for every record that is made.
-/

namespace Dashboards

namespace History

/-- The histories by dashboard, the moment the clock shows next, and how many ids were given out. -/
structure Registry where
  histories : Members (List Record)
  clock : Moment
  minted : Nat

namespace Registry

/-- No dashboards, and a clock that starts at a given moment. -/
def empty (start : Moment) : Registry := ⟨[], start, 0⟩

def freshId (r : Registry) : String × Registry :=
  (idText r.minted, { r with minted := r.minted + 1 })

/-- Makes the record of a version from a draft. The clock moves on also where that fails. -/
def record (r : Registry) (version : Int) (d : Draft) : Except Fault Record × Registry :=
  (match Record.make version (stamp d.document version) r.clock.text d.author d.note with
   | .good rec => .ok rec
   | .bad faults => .error (.misshapen faults),
   { r with clock := r.clock.next })

/-- Writes the records of a dashboard. -/
def store (r : Registry) (id : String) (records : List Record) : Registry :=
  { r with histories := r.histories.set id records }

def create (r : Registry) (id : String) (first : Draft) : Except Fault Unit × Registry :=
  if r.histories.contains id then (.error (.takenId id), r)
  else
    match r.record 1 first with
    | (.ok rec, r) => (.ok (), r.store id [rec])
    | (.error f, r) => (.error f, r)

def find (r : Registry) (id : String) : Except Fault (List Record) :=
  match r.histories.get? id with
  | some records => .ok records
  | none => .error (.unknownDashboard id)

/-- The latest record of a history. -/
def current (r : Registry) (id : String) : Except Fault Record := do
  let records ← r.find id
  match records.getLast? with
  | some rec => pure rec
  | none => throw (.unknownDashboard id)

def version (r : Registry) (id : String) (number : Int) : Except Fault Record := do
  let records ← r.find id
  match (if 1 ≤ number then records[(number - 1).toNat]? else none) with
  | some rec => pure rec
  | none => throw (.unknownVersion id number)

/-- Appends a draft as the version after `expected`, if that is the current one. -/
def commit (r : Registry) (id : String) (expected : Int) (next : Draft) :
    Except Fault Record × Registry :=
  match r.find id, r.current id with
  | .ok records, .ok latest =>
    if expected ≠ latest.version then (.error (.stale expected latest.version), r)
    else
      match r.record (latest.version + 1) next with
      | (.ok rec, r) => (.ok rec, r.store id (records ++ [rec]))
      | (.error f, r) => (.error f, r)
  | .error f, _ | _, .error f => (.error f, r)

/-- At most `limit` records, the newest first. -/
def newest (r : Registry) (id : String) (limit : Int) : Except Fault (List Record) := do
  let records ← r.find id
  pure (records.reverse.take limit.toNat)

/-- Answers a question from the records in memory. -/
def respond : (q : Question) → Registry → Answer q × Registry
  | .freshId, r => r.freshId
  | .create id first, r => r.create id first
  | .find id, r => ((r.find id).map fun _ => (), r)
  | .current id, r => (r.current id, r)
  | .version id number, r => (r.version id number, r)
  | .commit id expected next, r => r.commit id expected next
  | .newest id limit, r => (r.newest id limit, r)

/-- Carries a conversation on with the registry. -/
def converse {α : Type} (c : Conversation α) (r : Registry) : Except Fault α × Registry :=
  Dialogue.run respond c.run r

end Registry

end History

end Dashboards
