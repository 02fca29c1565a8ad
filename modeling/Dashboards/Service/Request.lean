import Dashboards.Json.Reader
import Dashboards.Service.Route
import Dashboards.Shape.Basic

/-!
# Requests

A request as it arrives, who sends it, and the JSON value in its body. The values of headers and the
body are bytes. A header is read as one character for each byte, and a body is decoded as a JSON text.
-/

namespace Dashboards

namespace Service

structure Request where
  method : String
  target : Target
  headers : List (String × List UInt8)
  body : List UInt8

/-- The identity that a gateway forwards: both parts may be missing. -/
structure Caller where
  id : Option String
  role : Option String

/-- The name under which the requests of a caller are counted. -/
def Caller.key (c : Caller) : String := (c.id.filter (· ≠ "")).getD "anonymous"

namespace Request

/-- The value of a header, whose name is read without regard to case. -/
def header? (r : Request) (name : String) : Option String :=
  ((r.headers.map fun (n, v) => (n.toLower, v)).lookup name).map Octets.latin

def caller (r : Request) : Caller := ⟨r.header? "x-user-id", r.header? "x-user-role"⟩

/-- The trace id that the sender chose. -/
def trace? (r : Request) : Option String := (r.header? "x-trace-id").filter (· ≠ "")

/-- Whether a request only asks, for a page of another origin, whether some request may be sent. -/
def isPreflight (r : Request) : Bool :=
  r.method == "OPTIONS" && (r.header? "origin").isSome &&
    (r.header? "access-control-request-method").isSome

/-- The kind of content that a header names, without its parameters. -/
def contentKind (header : String) : List String :=
  let kind := (header.toList.takeWhile (· ≠ ';')).map Char.toLower
  ((String.ofList kind).trimAscii.toString).splitOn "/"

/-- Whether the body is to be read as JSON: where nothing else is said, it is. -/
def carriesJson (r : Request) : Bool :=
  match (r.header? "content-type").filter (· ≠ "") with
  | none => true
  | some header =>
    match contentKind header with
    | ["application", kind] => kind == "json" || kind.endsWith "+json"
    | _ => false

/-- What the body of a request holds. -/
inductive Content where
  | nothing
  | json (v : Value)
  | other

/-- Why a body has no content: its text is not JSON, or it is no text at all or goes beyond a bound. -/
inductive Unread where
  | malformed (fault : Json.Fault)
  | unparsed
  deriving DecidableEq, Repr

/-- Reads the bytes of a JSON text. -/
def jsonIn (bytes : List UInt8) : Except Unread Value :=
  match Octets.jsonChars? (bytes.map (·.toNat)) with
  | none => .error .unparsed
  | some cs =>
    (Json.readChars cs).mapError fun
      | .malformed fault => .malformed fault
      | .beyond _ => .unparsed

/-- Reads the body, or says why it has no content. -/
def content (r : Request) : Except Unread Content :=
  if r.body = [] then .ok .nothing
  else if r.carriesJson then (jsonIn r.body).map .json
  else .ok .other

end Request

open Shape in
/-- The body of a request as a record with the given fields. -/
def readBody {α : Type} (fields : Members Value → Checked α) : Request.Content → Checked α
  | .nothing => .bad [⟨["body"], .missing⟩]
  | .json (.obj ms) => (fields ms).under "body"
  | _ => .bad [⟨["body"], .notBody⟩]

end Service

end Dashboards
