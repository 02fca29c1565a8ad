import Dashboards.Patch.Apply

/-!
# Issues

An issue is a problem found in a patch: its cause, the path it is about and the position of the
operation it comes from. The cause fixes the code, the message and the details.
-/

namespace Dashboards

/-- What is wrong with a patch. -/
inductive Objection where
  | badPath (fault : Pointer.Fault)
  | blockedPath (path : String) (section_ : Pointer)
  | outsidePath (path : String)
  | noSource (verb : Verb)
  | creatingTabs
  | removingTabs
  | full (limit : Int) (label : String)
  | tooLong (limit : Int) (label : String) (requested : Nat)
  | outgrown (limit : Int) (label : String) (resulting : Nat)
  | protectedTab (name : String)
  | holdsProtectedTab (path name : String)
  | changedSection (section_ : Pointer)
  | fault (fault : Patch.Fault)
  | staleVersion (expected actual : Int)
  | malformed (message : String)
  deriving DecidableEq

def staleVersionMessage (expected actual : Int) : String :=
  s!"Expected version {expected} but current version is {actual}"

def staleVersionDetails (expected actual : Int) : Value :=
  .obj [("expectedVersion", .ofInt expected), ("currentVersion", .ofInt actual)]

namespace Objection

def code : Objection → ErrorCode
  | .badPath _ | .noSource _ | .malformed _ => .validationError
  | .blockedPath .. | .changedSection _ => .pathForbidden
  | .outsidePath _ => .pathNotAllowed
  | .creatingTabs | .removingTabs | .protectedTab _ | .holdsProtectedTab .. => .guardrailBlocked
  | .full .. | .tooLong .. | .outgrown .. => .guardrailExceeded
  | .fault f => f.code
  | .staleVersion .. => .versionConflict

private def ceilingMessage (limit : Int) (label : String) : String :=
  s!"GUARDRAIL_EXCEEDED: max {limit} {label}"

def message : Objection → String
  | .badPath f => f.message
  | .blockedPath path p => s!"Path {path} is forbidden (blocked prefix {p.text})"
  | .outsidePath path => s!"Path {path} is outside the editable sections"
  | .noSource verb => s!"'{verb.text}' requires a 'from' path"
  | .creatingTabs => "Creating new tabs is disabled"
  | .removingTabs => "Removing tabs is disabled"
  | .full limit label | .tooLong limit label _ | .outgrown limit label _ =>
    ceilingMessage limit label
  | .protectedTab name => s!"Tab '{name}' is protected and cannot be removed"
  | .holdsProtectedTab path name =>
    let shown := if path = "" then "/" else path
    s!"Removing {shown} would remove protected tab '{name}'"
  | .changedSection p => s!"Patch modifies forbidden section {p.text}"
  | .fault f => f.message
  | .staleVersion expected actual => staleVersionMessage expected actual
  | .malformed message => message

/-- A check that met an index with too many digits and could not be finished. -/
def overlongIndex (digits : Nat) : Objection := .fault (.overlongIndex digits)

/-- The bound that was met, where the check could not be finished. -/
def excess? : Objection → Option Excess
  | .fault f => f.excess?
  | _ => none

def details? : Objection → Option Value
  | .full limit _ => some (.obj [("limit", .ofInt limit)])
  | .tooLong limit _ n => some (.obj [("limit", .ofInt limit), ("requested", .ofNat n)])
  | .outgrown limit _ n => some (.obj [("limit", .ofInt limit), ("resulting", .ofNat n)])
  | .staleVersion expected actual => some (staleVersionDetails expected actual)
  | _ => none

end Objection

structure Issue where
  objection : Objection
  path : Option String
  position : Option Nat
  deriving DecidableEq

namespace Issue

def code (i : Issue) : ErrorCode := i.objection.code

def message (i : Issue) : String := i.objection.message

def excess? (i : Issue) : Option Excess := i.objection.excess?

/-- The members of an issue; absent ones are left out. -/
def toValue (i : Issue) : Value :=
  let given {α : Type} (name : String) (f : α → Value) (a : Option α) : Members Value :=
    match a with
    | some a => [(name, f a)]
    | none => []
  .obj ([("code", .str i.code.text), ("message", .str i.message)] ++ given "path" .str i.path ++
    given "operationIndex" .ofNat i.position ++ given "details" id i.objection.details?)

end Issue

end Dashboards
