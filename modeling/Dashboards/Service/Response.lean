import Dashboards.Document.NonFinite
import Dashboards.Json.Limits
import Dashboards.Service.Errand
import Dashboards.Shape.Basic

/-!
# Responses

A response repeats the trace id of its request. Failures are reported in an envelope whose code
fixes the status. No number in a response is other than finite, every text in it can be encoded, and
what a regular response shows is nested to a bounded depth.
-/

namespace Dashboards

/-- Whether a failure can be sent: its details hold no number that is not finite, and its texts can
be encoded. -/
def Failure.isSendable (f : Failure) : Bool :=
  ((f.details.getD .null).nonFinite "").isEmpty && f.toValue.isEncodable

namespace Service

/-- What a response carries. The pages that describe the service are not described further. -/
inductive Payload where
  | json (v : Value)
  | text (s : String)
  | page

structure Response where
  status : Nat
  trace : String
  payload : Payload

/-- The failure of a request of the wrong shape. -/
def invalidRequest (complaints : List String) : Failure :=
  ⟨.validationError, "Invalid request body", some (.obj [("errors", .ofStrings complaints)])⟩

namespace Response

/-- The envelope of a failure, if it can be sent. -/
def failure (trace : String) (f : Failure) : Response :=
  let sent := if f.isSendable then f else internalFailure
  ⟨sent.status, trace, .json (failureEnvelope sent trace)⟩

/-- A response in JSON, with `null` for the numbers that are not finite. What is nested too deeply
below its root cannot be sent, nor what cannot be encoded. -/
def json (trace : String) (status : Nat) (v : Value) : Response :=
  if v.depth ≤ Excess.responseDepth + 1 ∧ v.isEncodable then ⟨status, trace, .json v.finiteOnly⟩
  else failure trace internalFailure

def invalid (trace : String) (faults : List Shape.Fault) : Response :=
  failure trace (invalidRequest (faults.map (·.message)))

/-- A response about the path and the method of a request. -/
def detail (trace : String) (status : Nat) (text : String) : Response :=
  ⟨status, trace, .json (.obj [("detail", .str text)])⟩

/-- The response to a body that is no text or goes beyond a bound. -/
def unreadBody (trace : String) : Response :=
  detail trace 400 "There was an error parsing the body"

def notFound (trace : String) : Response := detail trace 404 "Not Found"

def wrongMethod (trace : String) : Response := detail trace 405 "Method Not Allowed"

/-- A response that sends the caller to another path. -/
def redirection (trace : String) : Response := ⟨307, trace, .text ""⟩

/-- A page that describes the service. -/
def page (trace : String) : Response := ⟨200, trace, .page⟩

/-- The response to a question about a request from another origin, with what speaks against it. -/
def preflight (trace : String) (objections : List String) : Response :=
  if objections.isEmpty then ⟨200, trace, .text "OK"⟩
  else ⟨400, trace, .text ("Disallowed CORS " ++ ", ".intercalate objections)⟩

/-- What is left of a response under a method: a request for the head alone gets no payload. -/
def under (r : Response) (method : String) : Response :=
  if method = "HEAD" then { r with payload := .text "" } else r

end Response

end Service

end Dashboards
