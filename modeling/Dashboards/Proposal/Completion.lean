import Dashboards.Dialogue
import Dashboards.Json.Display
import Dashboards.Json.Writer
import Dashboards.Proposal.Basic
import Dashboards.Proposal.Prompt
import Dashboards.Status

/-!
# Asking for a proposal

A collaborator is asked over the wire and may fail to answer. A reply is decisive when it refuses
because of a rate limit, holds a message content or is nested too deeply; after any other reply the same request is sent
again, until the allowed number of attempts is used up.
-/

namespace Dashboards

/-! ## Parts of a payload -/

/-- Why a value has no such part. -/
inductive Absence where
  | missingKey (key : String)
  | missingFront
  | emptyList
  | emptyText
  | listByKey
  | textByKey
  | noParts (kind : String)

def Absence.reason : Absence → String
  | .missingKey key => showText key
  | .missingFront => "0"
  | .emptyList => "list index out of range"
  | .emptyText => "string index out of range"
  | .listByKey => "list indices must be integers or slices, not str"
  | .textByKey => "string indices must be integers, not 'str'"
  | .noParts kind => s!"'{kind}' object is not subscriptable"

namespace Value

/-- The part of a value under a key. -/
def partUnder (key : String) : Value → Except Absence Value
  | .obj ms =>
    match Members.get? ms key with
    | some v => .ok v
    | none => .error (.missingKey key)
  | .arr _ => .error .listByKey
  | .str _ => .error .textByKey
  | v => .error (.noParts v.kindName)

/-- The first part of a value. -/
def front : Value → Except Absence Value
  | .arr (v :: _) => .ok v
  | .arr [] => .error .emptyList
  | .str s =>
    match s.toList with
    | c :: _ => .ok (.str (String.singleton c))
    | [] => .error .emptyText
  | .obj _ => .error .missingFront
  | v => .error (.noParts v.kindName)

/-- The content of the first message of a completion. -/
def messageContent (payload : Value) : Except Absence Value := do
  let choices ← payload.partUnder "choices"
  let choice ← choices.front
  let message ← choice.partUnder "message"
  message.partUnder "content"

end Value

/-! ## Requests and replies -/

namespace Completion

/-- Whether a word occurs in a text. -/
def occursIn (word : List Char) : List Char → Bool
  | [] => word.isEmpty
  | c :: rest => word.isPrefixOf (c :: rest) || occursIn word rest

/-- Where a collaborator is reached, how it is asked, and how often again after a failure. -/
structure Endpoint where
  url : String
  key : Option String
  model : String
  temperature : Float
  maxTokens : Int
  retries : Int

def servicePath : String := "/chat/completions"

/-- The address of requests: the configured one, extended by the path of the service unless it has
that path already. -/
def Endpoint.address (e : Endpoint) : String :=
  if occursIn servicePath.toList e.url.toList then e.url
  else (e.url.dropEndWhile '/').toString ++ servicePath

/-- How often a request is sent at most. -/
def Endpoint.attempts (e : Endpoint) : Int := e.retries + 1

structure Request where
  address : String
  authorization : Option String
  model : String
  instruction : String
  message : String
  temperature : Float
  maxTokens : Int

/-- A key that is empty authorizes nothing. -/
def Endpoint.request (e : Endpoint) (instruction message : String) : Request where
  address := e.address
  authorization := (e.key.filter (· ≠ "")).map ("Bearer " ++ ·)
  model := e.model
  instruction := instruction
  message := message
  temperature := e.temperature
  maxTokens := e.maxTokens

/-- The body that a request is sent with. -/
def Request.body (r : Request) : Value :=
  let spoken (role content : String) : Value := .obj [("role", .str role), ("content", .str content)]
  .obj [("model", .str r.model),
    ("messages", .arr [spoken "system" r.instruction, spoken "user" r.message]),
    ("temperature", .ofFloat r.temperature), ("max_tokens", .ofInt r.maxTokens)]

/-- What comes back for a request. -/
inductive Reply where
  | lost (reason : String)
  | answered (status : Nat) (body : String)

/-- What a decisive reply says. -/
inductive Verdict where
  | limited
  | content (v : Value)
  | beyond (excess : Excess)

/-- Why a reply is not decisive. -/
inductive Setback where
  | lost (reason : String)
  | refused (status : Nat) (address : String)
  | unreadable (cause : Json.Unreadable) (body : String)
  | noContent (absence : Absence)

def Setback.reason : Setback → String
  | .lost reason => reason
  | .refused status address =>
    let said := s!"{status} " ++ statusPhrase status
    statusClass status ++ s!" '{said}' for url '{address}'\n" ++
      s!"For more information check: https://developer.mozilla.org/en-US/docs/Web/HTTP/Status/{status}"
  | .unreadable cause body => cause.message body
  | .noContent absence => absence.reason

/-- The status of a refusal because of too many requests. -/
def limitedStatus : Nat := 429

/-- The verdict of a reply that came from an address, if it is decisive. -/
def Reply.judge (address : String) : Reply → Except Setback Verdict
  | .lost reason => .error (.lost reason)
  | .answered status body =>
    if isSuccess status then
      -- A byte order mark in front of the text is passed over.
      let text := Json.withoutMark body
      match Json.read text with
      | .error (.beyond excess) =>
        if excess.isDeep then .ok (.beyond excess)
        else .error (.unreadable (.beyond excess) text)
      | .error cause => .error (.unreadable cause text)
      | .ok payload =>
        match payload.messageContent with
        | .ok v => .ok (.content v)
        | .error absence => .error (.noContent absence)
    else if status = limitedStatus then .ok .limited
    else .error (.refused status address)

/-! ## The exchange -/

/-- A dialogue that sends requests and goes on with the replies. -/
abbrev Exchange (α : Type) := Dialogue (fun _ : Request => Reply) α

/-- Sends a request until a reply is decisive, at most so many times; without a verdict, the last
setback is left. -/
def send (r : Request) : Nat → Option Setback → Exchange (Except (Option Setback) Verdict)
  | 0, last => .done (.error last)
  | n + 1, _ => .ask r fun reply =>
    match reply.judge r.address with
    | .ok verdict => .done (.ok verdict)
    -- The setback is remembered in case it is the last one.
    | .error setback => send r n (some setback)

/-- Why there is no proposal. -/
inductive Fault where
  | limited
  | exhausted (attempts : Int) (last : Option Setback)
  | noProposal (fault : Proposal.Fault)

/-- The failure that is reported, unless the reply was given up. -/
def Fault.failure? : Fault → Option Failure
  | .limited => some ⟨.rateLimited, "AI rate limit exceeded, try again later", none⟩
  | .exhausted attempts last =>
    let reason := (last.map (·.reason)).getD "None"
    some ⟨.aiError, s!"AI call failed after {attempts} attempt(s)",
      some (.obj [("reason", .str reason)])⟩
  | .noProposal fault => fault.failure?

/-- The text that an exchange ends in: a content of null is an empty text. -/
def outcome (e : Endpoint) : Except (Option Setback) Verdict → Except Fault String
  | .error last => .error (.exhausted e.attempts last)
  | .ok .limited => .error .limited
  | .ok (.content .null) => .ok ""
  | .ok (.content (.str s)) => .ok s
  | .ok (.content v) => .error (.noProposal (.notText v.kindName))
  | .ok (.beyond excess) => .error (.noProposal (.beyond excess))

/-- Asks for one completion. -/
def complete (e : Endpoint) (instruction message : String) : Exchange (Except Fault String) := do
  let result ← send (e.request instruction message) e.attempts.toNat none
  pure (outcome e result)

/-- Asks for a patch of a document and reads the proposal in the answer. -/
def propose (e : Endpoint) (p : Policy) (doc : Value) (fields : List String) (request : String) :
    Exchange (Except Fault Proposal) := do
  match ← complete e Prompt.instruction (Prompt.edit p doc fields request) with
  | .ok text => pure ((Proposal.parse (.str text)).mapError .noProposal)
  | .error fault => pure (.error fault)

end Completion

end Dashboards
