import Dashboards.History.Question
import Dashboards.Json.Writer

/-!
# The versions table

The same questions, answered from a table with one row for each version of each dashboard and a
unique key of both. A commit reads the latest row under a lock and inserts the next one; where
another writer has inserted that row first, the unique key refuses it.
-/

namespace Dashboards

namespace History

namespace Table

/-- A row of the table. Its document is a JSON text, or the tree that such a text stands for. -/
structure Row where
  version : Int
  document : Value
  createdAt : String
  author : Option String
  note : Option String

/-- What is sent over a connection to the database. -/
inductive Call where
  | begin
  | createTable
  | exists (id : String)
  | latest (id : String) (locked : Bool)
  | version (id : String) (number : Int)
  | insert (id : String) (version : Int) (document : String) (author note : Option String)
  | newest (id : String) (limit : Int)
  | greatest (id : String)

/-- What the database gives back when it does not refuse a call. -/
@[reducible] def Payload : Call → Type
  | .begin | .createTable => Unit
  | .exists _ => Bool
  | .latest .. | .version .. | .insert .. => Option Row
  | .newest .. => List Row
  | .greatest _ => Option Int

/-- The database refuses a row whose key is taken. -/
inductive Violation where
  | duplicateKey

@[reducible] def Reply (c : Call) : Type := Except Violation (Payload c)

/-! ## Statements -/

private def columns : String :=
  "dashboard_id, version, dashboard_spec, created_by, notes, created_at"

private def selectRows (condition : String) : String :=
  s!"SELECT {columns} FROM dashboard_spec_versions WHERE {condition}"

private def latestFirst : String := "dashboard_id = $1 ORDER BY version DESC LIMIT "

/-- The statement of a call; opening a transaction sends none. -/
def Call.statement? : Call → Option String
  | .begin => none
  | .createTable => some <|
    "CREATE TABLE IF NOT EXISTS dashboard_spec_versions ( dashboard_id TEXT NOT NULL, " ++
    "version INTEGER NOT NULL CHECK (version >= 1), dashboard_spec JSONB NOT NULL, " ++
    "created_by TEXT, notes TEXT, created_at TIMESTAMPTZ NOT NULL DEFAULT now(), " ++
    "CONSTRAINT dashboard_spec_versions_uniq UNIQUE (dashboard_id, version) )"
  | .exists _ =>
    some "SELECT EXISTS (SELECT 1 FROM dashboard_spec_versions WHERE dashboard_id = $1)"
  | .latest _ locked =>
    some (selectRows (latestFirst ++ "1" ++ if locked then " FOR UPDATE" else ""))
  | .version .. => some (selectRows "dashboard_id = $1 AND version = $2")
  | .insert .. => some <|
    "INSERT INTO dashboard_spec_versions (dashboard_id, version, dashboard_spec, created_by, notes) " ++
    s!"VALUES ($1, $2, $3::jsonb, $4, $5) RETURNING {columns}"
  | .newest .. => some (selectRows (latestFirst ++ "$2"))
  | .greatest _ => some "SELECT max(version) FROM dashboard_spec_versions WHERE dashboard_id = $1"

/-- The kind of a call: whether it wants rows, one row, one value or nothing. -/
def Call.method : Call → String
  | .begin => "transaction"
  | .createTable => "execute"
  | .exists _ | .greatest _ => "fetchval"
  | .latest .. | .version .. | .insert .. => "fetchrow"
  | .newest .. => "fetch"

def Call.arguments : Call → List Value
  | .begin | .createTable => []
  | .exists id | .latest id _ | .greatest id => [.str id]
  | .version id n | .newest id n => [.str id, .ofInt n]
  | .insert id n document author note =>
    [.str id, .ofInt n, .str document, .ofOption .str author, .ofOption .str note]

/-! ## Answering questions -/

/-- The record that a row stands for. -/
def Row.record (row : Row) : Except Fault Record := do
  let document ←
    match row.document with
    | .str text =>
      (Json.read text).mapError fun
        | .malformed fault => .unreadable text fault
        | .beyond excess => .beyond excess
    | tree => pure tree
  match Record.make row.version document row.createdAt row.author row.note with
  | .good r => pure r
  | .bad faults => throw (.misshapen faults)

/-- A draft as the row of a version. -/
def insertion (id : String) (version : Int) (d : Draft) : Call :=
  .insert id version (Json.line (.spaced true) (stamp d.document version)) d.author d.note

/-- A dialogue with the database, which ends early where it refuses a call or a fault is found. -/
abbrev Session (α : Type) := ExceptT Fault (Dialogue Reply) α

/-- Sends a call, and goes on with `taken` where the database refuses it. -/
def attempt (c : Call) (taken : Session (Payload c)) : Session (Payload c) := do
  match ← ExceptT.lift (Dialogue.question c) with
  | .ok a => pure a
  | .error .duplicateKey => taken

/-- Sends a call that the database has no reason to refuse. -/
def send (c : Call) : Session (Payload c) := attempt c (throw .duplicateKey)

def create (id : String) (first : Draft) : Session Unit := do
  let _ ← attempt (insertion id 1 first) (throw (.takenId id))

def find (id : String) : Session Unit := do
  if ← send (.exists id) then pure () else throw (.unknownDashboard id)

def current (id : String) : Session Record := do
  match ← send (.latest id false) with
  | some row => row.record
  | none => throw (.unknownDashboard id)

def version (id : String) (number : Int) : Session Record := do
  match ← send (.version id number) with
  | some row => row.record
  | none => throw (.unknownVersion id number)

/-- The stale version of a commit whose row another writer has inserted. -/
def conflict {α : Type} (id : String) (expected : Int) : Session α := do
  let greatest ← send (.greatest id)
  throw (.stale expected (((greatest.filter (· ≠ 0))).getD (expected + 1)))

def commit (id : String) (expected : Int) (next : Draft) : Session Record := do
  send .begin
  -- Either call of the transaction may run into the row of another writer.
  match ← attempt (.latest id true) (conflict id expected) with
  | none => throw (.unknownDashboard id)
  | some latest =>
    if latest.version ≠ expected then throw (.stale expected latest.version)
    else
      match ← attempt (insertion id (expected + 1) next) (conflict id expected) with
      | some row => row.record
      | none => throw .noRow

def newest (id : String) (limit : Int) : Session (List Record) := do
  -- A negative limit asks for nothing.
  let rows ← send (.newest id (max limit 0))
  rows.mapM fun row => (row.record : Session Record)

/-- A database in some state, and how many ids were given out. -/
structure Archive (σ : Type) where
  database : σ
  minted : Nat

variable {σ : Type}

/-- Holds a session with the database of an archive. -/
def Archive.hold {α : Type} (a : Archive σ) (reply : (c : Call) → σ → Reply c × σ) (s : Session α) :
    Except Fault α × Archive σ :=
  let (result, database) := Dialogue.run reply s.run a.database
  (result, { a with database })

/-- Answers a question from a database, given how that replies to single calls. -/
def respond (reply : (c : Call) → σ → Reply c × σ) : (q : Question) → Archive σ → Answer q × Archive σ
  | .freshId, a => (idText a.minted, { a with minted := a.minted + 1 })
  | .create id first, a => a.hold reply (create id first)
  | .find id, a => a.hold reply (find id)
  | .current id, a => a.hold reply (current id)
  | .version id number, a => a.hold reply (version id number)
  | .commit id expected next, a => a.hold reply (commit id expected next)
  | .newest id limit, a => a.hold reply (newest id limit)

end Table

end History

end Dashboards
