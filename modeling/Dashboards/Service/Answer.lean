import Dashboards.Service.Insights
import Dashboards.Service.Response
import Dashboards.Service.Task

/-!
# Answers

How each task is carried out. A dry run always ends in a regular answer, which says whether the
patch would be accepted; a proposal is only ever simulated.
-/

namespace Dashboards

namespace Service

open History

/-- The members that show a dry run. -/
def simulationMembers (s : Simulation) : Members Value :=
  [("valid", .bool s.valid), ("errors", .arr (s.issues.map (·.toValue))),
   ("warnings", .ofStrings s.warnings), ("previewDocument", .ofOption .obj s.newDocument),
   ("diffSummary", .ofStrings (s.changes.map (·.text))),
   ("previewMetrics", .ofOption (·.toValue) s.preview),
   ("currentVersion", .ofInt s.currentVersion), ("willBeVersion", .ofInt s.willBeVersion)]

/-- The failure that the first issue of a dry run stands for. -/
def firstIssue? (s : Simulation) : Option Failure :=
  match s.valid, s.issues with
  | false, first :: _ =>
    some ⟨first.code, first.message, some (.obj [("errors", .arr (s.issues.map (·.toValue)))])⟩
  | _, _ => none

/-- The answer that shows a dry run. -/
def simulationAnswer (trace : String) (s : Simulation) : Value :=
  .obj ([("ok", .bool s.valid), ("traceId", .str trace)] ++ simulationMembers s ++
    match firstIssue? s with
    | some f => [("error", f.toValue)]
    | none => [])

/-- The failure of a dry run that could not be made, as its answer reports it. -/
def simulationFailure (f : Fault) : Failure :=
  f.failure?.getD ⟨.internalError, "Simulation failed", none⟩

/-- The answer to a dry run that could not be made. -/
def noSimulation (trace : String) (f : Fault) : Value :=
  .obj [("ok", .bool false), ("traceId", .str trace), ("valid", .bool false),
    ("error", (simulationFailure f).toValue)]

/-! ## Conversations with the archive -/

def identity (id : String) (record : Record) : Members Value :=
  [("dashboardId", .str id), ("version", .ofInt record.version), ("document", .obj record.document)]

/-- Starts a history with a copy of a document. -/
def create (s : Settings) (caller : Caller) (b : CreateBody) : Conversation (Members Value) := do
  let document ← ExceptT.mk (pure (Conversation.copied s.editRules.room (.obj b.document)))
  let id ← Conversation.create b.id ⟨document, caller.id, b.note⟩
  identity id <$> Conversation.current id

def showCurrent (id : String) : Conversation (Members Value) := do
  Conversation.find id
  let record ← Conversation.current id
  pure (identity id record ++ [("updatedAt", .str record.createdAt)])

/-- How many versions are listed: as many as asked for or as is usual, within the limit. -/
def listed (s : Settings) (limit : Option Int) : Int := min (limit.getD s.historyDefault) s.historyLimit

def showHistory (s : Settings) (id : String) (limit : Option Int) :
    Conversation (Members Value) := do
  Conversation.find id
  let records ← Conversation.newest id (listed s limit)
  pure [("dashboardId", .str id), ("versions", .arr (records.map fun r => .obj r.summary))]

def showVersion (id : String) (number : Int) : Conversation (Members Value) := do
  Conversation.find id
  let record ← Conversation.version id number
  pure ([("dashboardId", .str id)] ++ record.summary ++ [("document", .obj record.document)])

def simulate (s : Settings) (id : String) (b : SimulateBody) : Conversation Simulation := do
  Conversation.find id
  Conversation.simulate s.editRules id b.version b.operations

def commit (s : Settings) (caller : Caller) (id : String) (b : CommitBody) :
    Conversation (Members Value) := do
  Conversation.find id
  let (record, simulation) ←
    Conversation.commit s.editRules id b.version b.operations caller.id b.note
  pure [("committedVersion", .ofInt record.version),
    ("previousVersion", .ofInt simulation.currentVersion),
    ("diffSummary", .ofStrings (simulation.changes.map (·.text))),
    ("warnings", .ofStrings simulation.warnings)]

def rollback (caller : Caller) (id : String) (b : RollbackBody) : Conversation (Members Value) := do
  Conversation.find id
  let record ← Conversation.rollback id b.target caller.id
  pure [("committedVersion", .ofInt record.version), ("rolledBackTo", .ofInt b.target),
    ("note", .ofOption .str record.note)]

/-! ## Proposals -/

def missingEndpoint : Failure := ⟨.configError, "AI endpoint is not configured", none⟩

/-- Dry-runs a proposal, unless it has no operations. -/
def preview (s : Settings) (id : String) (version : Int) (p : Proposal) :
    Conversation (Option Simulation) :=
  if p.operations.isEmpty then pure none
  else some <$> Conversation.simulate s.editRules id version p.operations

def propose (s : Settings) (id : String) (b : ProposeBody) : Attempt (Members Value) := do
  match s.endpoint? with
  | none => throw missingEndpoint
  | some endpoint =>
    let record ← ofArchive (do Conversation.find id; Conversation.current id)
    let proposal ← ofCollaborator
      (Completion.propose endpoint s.policy (.obj record.document) b.columns b.wish)
    let simulation ← ofArchive (preview s id record.version proposal)
    pure [("proposal", proposal.toWire),
      ("simulation", .ofOption (fun x => .obj (simulationMembers x)) simulation)]

/-! ## Tasks -/

/-- The kind of archive that the settings ask for. -/
def storage (s : Settings) : String := if s.database?.isSome then "postgres" else "memory"

def health (s : Settings) : Value :=
  .obj [("status", .str "healthy"), ("storage", .str (storage s))]

def about : Value :=
  .obj [("name", .str "DashForge API"), ("version", .str "1.0.0"), ("docs", .str "/docs"),
    ("openapi", .str "/openapi.json")]

/-- A regular answer with some members. -/
def regular (trace : String) (status : Nat) (members : Members Value) : Response :=
  .json trace status (successEnvelope trace members)

/-- Carries a task out and ends with the response or a failure. -/
def perform (s : Settings) (caller : Caller) (trace : String) : Task → Attempt Response
  | .create b => regular trace 201 <$> ofArchive (create s caller b)
  | .current id => regular trace 200 <$> ofArchive (showCurrent id)
  | .history id limit => regular trace 200 <$> ofArchive (showHistory s id limit)
  | .version id number => regular trace 200 <$> ofArchive (showVersion id number)
  | .simulate id b => do
    match ← ExceptT.lift (withArchive (simulate s id b)) with
    | .ok simulation => pure (.json trace 200 (simulationAnswer trace simulation))
    | .error fault => pure (.json trace 200 (noSimulation trace fault))
  | .commit id b => regular trace 200 <$> ofArchive (commit s caller id b)
  | .rollback id b => regular trace 200 <$> ofArchive (rollback caller id b)
  | .propose id b => regular trace 200 <$> propose s id b
  | .insights b => Response.json trace 200 <$> ofExcept (b.draw s trace)
  | .health => pure (.json trace 200 (health s))
  | .about => pure (.json trace 200 about)

/-- Carries a task out; a failure is reported in its envelope. -/
def answer (s : Settings) (caller : Caller) (trace : String) (t : Task) : Handling Response := do
  match ← (perform s caller trace t).run with
  | .ok response => pure response
  | .error f => pure (.failure trace f)

end Service

end Dashboards
