import Dashboards.Integrity.Check
import Dashboards.Json.Reader
import Dashboards.Policy.Basic
import Dashboards.Proposal.Completion
import Dashboards.Simulation

/-!
# Settings

The settings of the service have defaults for everything. They are read from a table of values or
from the variables of an environment, which are texts; a variable for a list holds its JSON text.
-/

namespace Dashboards

structure Settings where
  databaseUrl : Option String
  leastConnections : Int
  mostConnections : Int
  commandTimeout : Float
  origins : List String
  policy : Policy
  summaryLength : Int
  historyDefault : Int
  historyLimit : Int
  leastRows : Int
  requireDates : Bool
  tolerance : Float
  requestBudget : Int
  requestWindow : Float
  collaboratorUrl : Option String
  collaboratorKey : Option String
  collaboratorModel : String
  collaboratorTimeout : Float
  temperature : Float
  maxTokens : Int
  retries : Int
  requireIdentity : Bool
  editorRoles : List String

namespace Settings

open Shape

def defaultOrigins : List String := ["http://localhost:3000", "http://127.0.0.1:3000"]

/-- The policy part of a table of settings. -/
def readPolicy (ms : Members Value) : Checked Policy :=
  let d := Policy.default
  (fun kpis charts steps filters tabs creating removing kept allowed blocked =>
      Policy.mk allowed blocked kpis charts steps filters tabs creating removing kept) <$>
    optional ms "max_kpis" d.maxKpis integer <*>
    optional ms "max_charts" d.maxCharts integer <*>
    optional ms "max_funnel_steps" d.maxFunnelSteps integer <*>
    optional ms "max_filters" d.maxFilters integer <*>
    optional ms "max_tabs" d.maxTabs integer <*>
    optional ms "allow_create_new_tabs" d.allowCreateNewTabs boolean <*>
    optional ms "allow_remove_tabs" d.allowRemoveTabs boolean <*>
    optional ms "protected_tabs" d.protectedTabs (list text) <*>
    optional ms "allowed_paths" d.allowedPaths (list text) <*>
    optional ms "blocked_paths" d.blockedPaths (list text)

/-- The settings that a table stands for; unknown names are passed over. -/
def read (ms : Members Value) : Checked Settings :=
  Settings.mk <$> nullableField ms "database_url" text <*>
    optional ms "db_pool_min_size" 2 integer <*>
    optional ms "db_pool_max_size" 10 integer <*>
    optional ms "db_command_timeout_seconds" 60.0 float <*>
    optional ms "cors_origins" defaultOrigins (list text) <*>
    readPolicy ms <*>
    optional ms "diff_summary_max_operations" 5 integer <*>
    optional ms "history_default_limit" 20 integer <*>
    optional ms "history_max_limit" 200 integer <*>
    optional ms "min_rows_for_insights" 3 integer <*>
    optional ms "require_date_field" false boolean <*>
    optional ms "totals_match_tolerance" 0.01 float <*>
    optional ms "rate_limit_requests" 60 integer <*>
    optional ms "rate_limit_window_seconds" 60.0 float <*>
    nullableField ms "ai_api_url" text <*>
    nullableField ms "ai_api_key" text <*>
    optional ms "ai_model" "gpt-4o-mini" text <*>
    optional ms "ai_timeout_seconds" 30.0 float <*>
    optional ms "ai_temperature" 0.3 float <*>
    optional ms "ai_max_tokens" 4000 integer <*>
    optional ms "ai_max_retries" 2 integer <*>
    optional ms "require_identity" false boolean <*>
    optional ms "editor_roles" ["admin", "manager", "editor"] (list text)

/-! ## Environments -/

/-- Why an environment holds no settings. -/
inductive Fault where
  | unreadable (field : String)
  | beyond (excess : Excess)
  | misshapen (faults : List Shape.Fault)

/-- The settings that are lists, in the order in which they are read. -/
def listFields : List String :=
  ["cors_origins", "protected_tabs", "allowed_paths", "blocked_paths", "editor_roles"]

/-- The value of a list in an environment; `null` leaves it to its default. -/
def listValue (vars : Members String) (field : String) : Except Fault (Option (String × Value)) :=
  match vars.get? field with
  | none => .ok none
  | some text =>
    match Json.read text with
    | .ok .null => .ok none
    | .ok v => .ok (some (field, v))
    | .error (.beyond excess) =>
      .error (if excess.isDeep then .beyond excess else .unreadable field)
    | .error (.malformed _) => .error (.unreadable field)

/-- The settings in an environment, whose names are read without regard to case. -/
def ofEnvironment (environment : Members String) : Except Fault Settings := do
  let vars := Members.ofEntries (environment.map fun (name, text) => (name.toLower, text))
  let lists ← listFields.filterMapM (listValue vars)
  let texts : Members String := vars.filter fun (name, _) => !listFields.contains name
  (read (lists ++ Members.mapValues Value.str texts)).toExcept.mapError .misshapen

/-! ## What the settings say -/

/-- A database is configured by an address that is not empty. -/
def database? (s : Settings) : Option String := s.databaseUrl.filter (· ≠ "")

def editRules (s : Settings) : EditRules := ⟨s.policy, s.summaryLength, some Excess.copyDepth⟩

/-- Where proposals are asked for, if an address is configured that is not empty. -/
def endpoint? (s : Settings) : Option Completion.Endpoint :=
  (s.collaboratorUrl.filter (· ≠ "")).map fun url =>
    ⟨url, s.collaboratorKey, s.collaboratorModel, s.temperature, s.maxTokens, s.retries⟩

/-- How data are checked where a request does not say. -/
def integrity (s : Settings) : Checked Integrity.Config :=
  Integrity.Config.read <| .obj
    [("minRowsForInsights", .ofInt s.leastRows), ("requireDateField", .bool s.requireDates),
     ("totalsTolerance", .ofFloat s.tolerance)]

/-! ## Tables of settings -/

def policyMembers (p : Policy) : Members Value :=
  [("max_kpis", .ofInt p.maxKpis), ("max_charts", .ofInt p.maxCharts),
   ("max_funnel_steps", .ofInt p.maxFunnelSteps), ("max_filters", .ofInt p.maxFilters),
   ("max_tabs", .ofInt p.maxTabs), ("allow_create_new_tabs", .bool p.allowCreateNewTabs),
   ("allow_remove_tabs", .bool p.allowRemoveTabs), ("protected_tabs", .ofStrings p.protectedTabs),
   ("allowed_paths", .ofStrings p.allowedPaths), ("blocked_paths", .ofStrings p.blockedPaths)]

def members (s : Settings) : Members Value :=
  [("database_url", .ofOption .str s.databaseUrl), ("db_pool_min_size", .ofInt s.leastConnections),
   ("db_pool_max_size", .ofInt s.mostConnections),
   ("db_command_timeout_seconds", .ofFloat s.commandTimeout),
   ("cors_origins", .ofStrings s.origins)] ++ policyMembers s.policy ++
  [("diff_summary_max_operations", .ofInt s.summaryLength),
   ("history_default_limit", .ofInt s.historyDefault), ("history_max_limit", .ofInt s.historyLimit),
   ("min_rows_for_insights", .ofInt s.leastRows), ("require_date_field", .bool s.requireDates),
   ("totals_match_tolerance", .ofFloat s.tolerance),
   ("rate_limit_requests", .ofInt s.requestBudget),
   ("rate_limit_window_seconds", .ofFloat s.requestWindow),
   ("ai_api_url", .ofOption .str s.collaboratorUrl),
   ("ai_api_key", .ofOption .str s.collaboratorKey), ("ai_model", .str s.collaboratorModel),
   ("ai_timeout_seconds", .ofFloat s.collaboratorTimeout),
   ("ai_temperature", .ofFloat s.temperature), ("ai_max_tokens", .ofInt s.maxTokens),
   ("ai_max_retries", .ofInt s.retries), ("require_identity", .bool s.requireIdentity),
   ("editor_roles", .ofStrings s.editorRoles)]

end Settings

end Dashboards
