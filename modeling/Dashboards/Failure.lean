import Dashboards.Json.Value

/-!
# Failures

Every failure that leaves the service carries a machine-readable code, a message and optional
details, and its code fixes the status of the response.
-/

namespace Dashboards

inductive ErrorCode where
  | validationError
  | pathForbidden
  | pathNotAllowed
  | guardrailExceeded
  | guardrailBlocked
  | patchError
  | versionConflict
  | parseError
  | notFound
  | authFailed
  | forbidden
  | rateLimited
  | aiError
  | configError
  | internalError
  deriving DecidableEq, Repr

namespace ErrorCode

def text : ErrorCode → String
  | .validationError => "VALIDATION_ERROR"
  | .pathForbidden => "PATCH_PATH_FORBIDDEN"
  | .pathNotAllowed => "PATCH_PATH_NOT_ALLOWED"
  | .guardrailExceeded => "GUARDRAIL_EXCEEDED"
  | .guardrailBlocked => "GUARDRAIL_BLOCKED"
  | .patchError => "PATCH_ERROR"
  | .versionConflict => "VERSION_CONFLICT"
  | .parseError => "PARSE_ERROR"
  | .notFound => "NOT_FOUND"
  | .authFailed => "AUTH_FAILED"
  | .forbidden => "FORBIDDEN"
  | .rateLimited => "RATE_LIMITED"
  | .aiError => "AI_ERROR"
  | .configError => "CONFIG_ERROR"
  | .internalError => "INTERNAL_ERROR"

def all : List ErrorCode :=
  [.validationError, .pathForbidden, .pathNotAllowed, .guardrailExceeded, .guardrailBlocked,
   .patchError, .versionConflict, .parseError, .notFound, .authFailed, .forbidden, .rateLimited,
   .aiError, .configError, .internalError]

def ofText? (s : String) : Option ErrorCode := all.find? fun c => c.text = s

/-- The status of a response that reports this code. -/
def status : ErrorCode → Nat
  | .versionConflict => 409
  | .notFound => 404
  | .authFailed => 401
  | .forbidden => 403
  | .rateLimited => 429
  | .internalError | .configError => 500
  | .aiError => 502
  | _ => 400

end ErrorCode

/-- A failure as callers of the service see it. -/
structure Failure where
  code : ErrorCode
  message : String
  details : Option Value

namespace Failure

def status (f : Failure) : Nat := f.code.status

/-- The members that report the failure; absent details are left out. -/
def toValue (f : Failure) : Value :=
  .obj ([("code", .str f.code.text), ("message", .str f.message)] ++
    match f.details with
    | some d => [("details", d)]
    | none => [])

end Failure

/-- The body of a response that reports a failure. -/
def failureEnvelope (f : Failure) (traceId : String) : Value :=
  .obj [("ok", .bool false), ("error", f.toValue), ("traceId", .str traceId)]

/-- The body of a response that reports success; the payload may replace the members before it. -/
def successEnvelope (traceId : String) (payload : Members Value) : Value :=
  .obj (Members.overlay [("ok", .bool true), ("traceId", .str traceId)] payload)

end Dashboards
