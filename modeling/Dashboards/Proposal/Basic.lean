import Dashboards.Failure
import Dashboards.Patch.Operation
import Dashboards.Proposal.Embedded
import Dashboards.Text.Sorted

/-!
# Proposals

A collaborator that is not trusted proposes patches in free text. A reply is a proposal when it
holds an object with a list of well-formed operations; every other reply is a fault.
-/

namespace Dashboards

/-- A proposed patch, what it is said to do, and how sure its author is, from 0 to 1. -/
structure Proposal where
  operations : List Operation
  summary : List String
  warnings : List String
  confidence : Float

namespace Proposal

def defaultConfidence : Float := 0.8

def read : Shape.Reader Proposal :=
  Shape.record "PatchProposal" fun ms =>
    Proposal.mk <$> Shape.required ms "patch" (Shape.list Operation.read) <*>
      Shape.optional ms "summary" [] (Shape.list Shape.text) <*>
      Shape.optional ms "warnings" [] (Shape.list Shape.text) <*>
      Shape.optional ms "confidence" defaultConfidence (Shape.floatWithin 0 (some 1))

/-- The proposal with its operations in the given form. -/
def members (p : Proposal) (form : Operation → Value) : Members Value :=
  [("patch", .arr (p.operations.map form)), ("summary", .ofStrings p.summary),
   ("warnings", .ofStrings p.warnings), ("confidence", .ofFloat p.confidence)]

/-- The proposal as it is sent. -/
def toWire (p : Proposal) : Value := .obj (p.members Operation.toWire)

/-- Why a reply holds no proposal. -/
inductive Fault where
  | notText (kind : String)
  | empty
  | noObject (text : String)
  | noPatch (keys : List String)
  | patchNotList
  | misshapen (faults : List Shape.Fault)
  | beyond (excess : Excess)

namespace Fault

/-- How much of a reply without an object is quoted. -/
def previewLength : Nat := 200

def message : Fault → String
  | .notText _ => "AI response content is not text"
  | .empty => "Empty response from AI collaborator"
  | .noObject _ => "AI response is not valid JSON"
  | .noPatch _ => "AI response has no 'patch' list"
  | .patchNotList => "'patch' must be a list of operations"
  | .misshapen _ => "AI response is not a valid patch proposal"
  | .beyond excess => excess.message

def details? : Fault → Option (Members Value)
  | .notText kind => some [("type", .str kind)]
  | .noObject text => some [("preview", .str (String.ofList (text.toList.take previewLength)))]
  | .noPatch keys => some [("keys", .ofStrings (sortedTexts keys))]
  | .misshapen faults => some [("errors", .ofStrings (faults.map (·.message)))]
  | .empty | .patchNotList | .beyond _ => none

/-- The failure that a reply without a proposal is reported as, unless the reply was given up. -/
def failure? : Fault → Option Failure
  | .beyond _ => none
  | f => some ⟨.parseError, f.message, f.details?.map .obj⟩

end Fault

/-- The proposal that the members of an object stand for. -/
def ofMembers (ms : Members Value) : Except Fault Proposal :=
  match ms.get? "patch" with
  | none => .error (.noPatch ms.keys)
  | some (.arr _) => (read (.obj ms)).toExcept.mapError .misshapen
  | some _ => .error .patchNotList

/-- The proposal in a reply, blanks around it aside. -/
def parse (reply : Value) : Except Fault Proposal :=
  match reply with
  | .str s =>
    let text := trimBlank s
    if text = "" then .error .empty
    else
      match Embedded.find? text with
      | .ok (some ms) => ofMembers ms
      | .ok none => .error (.noObject text)
      | .error excess => .error (.beyond excess)
  | v => .error (.notText v.kindName)

end Proposal

end Dashboards
