import Dashboards.Service.Target

/-!
# Routes

Every path that is served is served for one method, except for the pages that describe the service. A
route says what is asked for, and what has to be in place before it is answered.
-/

namespace Dashboards

namespace Service

inductive Method where
  | get
  | post
  deriving DecidableEq, Repr

def Method.text : Method → String
  | .get => "GET"
  | .post => "POST"

inductive Route where
  | create
  | current (id : String)
  | history (id : String)
  | version (id number : String)
  | simulate (id : String)
  | commit (id : String)
  | rollback (id : String)
  | propose (id : String)
  | insights
  | health
  | about
  deriving DecidableEq, Repr

/-- What has to be in place before a route is answered: an archive, an endpoint for proposals, the
identity of the caller, the role of an editor, and a rest of the caller's budget of requests. -/
structure Needs where
  archive : Bool
  endpoint : Bool
  identity : Bool
  editor : Bool
  budget : Bool

namespace Route

def method : Route → Method
  | .current _ | .history _ | .version .. | .health | .about => .get
  | _ => .post

/-- Whether a route expects a JSON body. -/
def takesBody (r : Route) : Bool := r.method = .post

def needs : Route → Needs
  | .create | .commit _ | .rollback _ => ⟨true, false, true, true, true⟩
  | .current _ | .history _ | .version .. => ⟨true, false, true, false, false⟩
  | .simulate _ => ⟨true, false, true, false, true⟩
  | .propose _ => ⟨true, true, true, true, true⟩
  | .insights => ⟨false, false, true, false, true⟩
  | .health | .about => ⟨false, false, false, false, false⟩

/-- A last segment without the line break at its end, which fixed names may be followed by. -/
def withoutBreak (segment : String) : String :=
  if segment.endsWith "\n" then (segment.dropEnd 1).toString else segment

/-- The route of something asked of one dashboard. -/
def ofDashboard? (id : String) : List String → Option Route
  | [] => some (.current id)
  | [last] =>
    match withoutBreak last with
    | "history" => some (.history id)
    | "simulate" => some (.simulate id)
    | "commit" => some (.commit id)
    | "rollback" => some (.rollback id)
    | "propose" => some (.propose id)
    | _ => none
  | ["versions", number] => if number = "" then none else some (.version id number)
  | _ => none

/-- The route of a path, given by its segments. -/
def ofSegments? : List String → Option Route
  | ["", last] =>
    match withoutBreak last with
    | "" => some .about
    | "health" => some .health
    | "insights" => some .insights
    | "dashboards" => some .create
    | _ => none
  | "" :: "dashboards" :: id :: rest => if id = "" then none else ofDashboard? id rest
  | _ => none

end Route

/-- Whether a path, given by its segments, is that of a page that describes the service. -/
def isPage : List String → Bool
  | ["", last] => ["openapi.json", "docs", "redoc"].contains (Route.withoutBreak last)
  | ["", "docs", last] => Route.withoutBreak last == "oauth2-redirect"
  | _ => false

/-- The methods that pages are served for. -/
def pageMethods : List String := ["GET", "HEAD"]

/-- Where a request leads: to a route, to a page, to the same path without slashes at its end, to a
path that is served for another method, or nowhere. -/
inductive Lead where
  | route (r : Route)
  | page
  | elsewhere (path : String)
  | wrongMethod
  | nowhere
  deriving DecidableEq, Repr

/-- A path without slashes at its end. -/
def withoutTail (path : String) : String := (path.dropEndWhile '/').toString

/-- Whether a path, given by its segments, is served for some method. -/
def isServed (segments : List String) : Bool :=
  isPage segments || (Route.ofSegments? segments).isSome

/-- Where a method and a target lead. -/
def lead (method : String) (t : Target) : Lead :=
  match Route.ofSegments? t.segments with
  | some r => if r.method.text = method then .route r else .wrongMethod
  | none =>
    if isPage t.segments then if pageMethods.contains method then .page else .wrongMethod
    else if t.path.endsWith "/" && isServed ((withoutTail t.path).splitOn "/") then
      .elsewhere (withoutTail t.path)
    else .nowhere

end Service

end Dashboards
