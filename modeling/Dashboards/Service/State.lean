import Dashboards.Service.Admission

/-!
# The service between requests

Between two requests the service keeps its settings, the windows of its rate limiter and the number
of trace ids that it has given out. What a request asks of the archive and of the collaborator is a
dialogue, which is handed back together with the next state.
-/

namespace Dashboards

namespace Service

structure State where
  settings : Settings
  hasArchive : Bool
  limiter : Option (Limiter Float)
  traces : Nat

/-- The limiter that the settings describe. -/
def limiterOf (s : Settings) : Limiter Float := .new s.requestBudget s.requestWindow

/-- The trace id that is given out after `count` others: eight hexadecimal digits. -/
def traceText (count : Nat) : String :=
  let digits := Nat.toDigits 16 (count + 1)
  String.ofList (List.replicate (8 - digits.length) '0' ++ digits)

namespace State

/-- The trace id of a request: its own one, or else the next one. -/
def trace (s : State) (r : Request) : String × State :=
  match r.trace? with
  | some trace => (trace, s)
  | none => (traceText s.traces, { s with traces := s.traces + 1 })

/-- Looks at what a request needs and says why it is refused, if it is. -/
def admission (s : State) (now : Float) (n : Needs) (c : Caller) : Option Failure × State :=
  match n.unmet? s.settings s.hasArchive c, n.budget, s.limiter with
  | none, true, some l =>
    -- Only a request that is let in otherwise counts against the budget.
    let (refusal, l) := spend l c now
    (refusal, { s with limiter := some l })
  | refusal, _, _ => (refusal, s)

/-- The methods that pages of other origins may use. -/
def sharedMethods : List String := ["DELETE", "GET", "HEAD", "OPTIONS", "PATCH", "POST", "PUT"]

/-- What speaks against a request that a page of another origin would like to send. -/
def preflightObjections (s : State) (r : Request) : List String :=
  let origin := (r.header? "origin").getD ""
  let method := (r.header? "access-control-request-method").getD ""
  (if s.settings.origins.contains "*" || s.settings.origins.contains origin then [] else ["origin"]) ++
    if sharedMethods.contains method then [] else ["method"]

/-- The content of a request for a route; routes without a body pass over it. -/
def contentFor (route : Route) (r : Request) : Except Request.Unread Request.Content :=
  if route.takesBody then r.content else .ok .nothing

/-- The fault of a body whose text is not JSON, placed where the text goes wrong. -/
def brokenBody (f : Json.Fault) : Shape.Fault := ⟨["body", toString f.position], .brokenJson⟩

/-- Answers a request for a route that arrives at some moment. -/
def follow (s : State) (now : Float) (trace : String) (route : Route) (r : Request) :
    Handling Response × State :=
  match contentFor route r with
  | .error (.malformed f) => (pure (.invalid trace [brokenBody f]), s)
  | .error .unparsed => (pure (Response.unreadBody trace), s)
  | .ok content =>
    -- The text of the body has been read; its shape matters only to a caller who is let in.
    match s.admission now route.needs r.caller with
    | (some refusal, s) => (pure (.failure trace refusal), s)
    | (none, s) =>
      match Task.read route r.target content with
      | .good task => (answer s.settings r.caller trace task, s)
      | .bad faults => (pure (.invalid trace faults), s)

/-- Answers a request that arrives at some moment. -/
def receive (s : State) (now : Float) (r : Request) : Handling Response × State :=
  let (trace, s) := s.trace r
  if r.isPreflight then (pure (Response.preflight trace (s.preflightObjections r)), s)
  else
    match lead r.method r.target with
    | .route route => s.follow now trace route r
    | .page => (pure ((Response.page trace).under r.method), s)
    | .elsewhere _ => (pure (Response.redirection trace), s)
    | .wrongMethod => (pure ((Response.wrongMethod trace).under r.method), s)
    | .nowhere => (pure ((Response.notFound trace).under r.method), s)

end State

end Service

end Dashboards
