import Dashboards.Policy.Check

/-!
# Applying a patch

A patch is applied as a whole or not at all. With a policy, every operation is checked before
anything is applied, and the result is compared with the document it started from.
-/

namespace Dashboards

namespace Patch

/-- What became of one operation of a patch. -/
inductive Status where
  | applied
  | failed (fault : Fault)
  | skipped
  deriving DecidableEq

def Status.text : Status → String
  | .applied => "applied"
  | .failed _ => "failed"
  | .skipped => "skipped"

structure Outcome where
  position : Nat
  verb : Verb
  path : String
  status : Status

/-- The result of a patch: the patched document, or the one that was given and the reasons. -/
structure Result where
  document : Value
  applied : Bool
  outcomes : List Outcome
  issues : List Issue

/-- The bound at which the patch was given up. -/
def Result.excess? (r : Result) : Option Excess := r.issues.findSome? (·.excess?)

/-- The first operation that cannot be carried out. -/
structure Stop where
  position : Nat
  path : String
  fault : Fault

/-- The document after all operations, or the operation that cannot be carried out. -/
def applyAll (position : Nat) (doc : Value) : List Operation → Except Stop Value
  | [] => .ok doc
  | op :: rest =>
    match op.apply doc with
    | .ok d => applyAll (position + 1) d rest
    | .error fault => .error ⟨position, op.path, fault⟩

/-- One outcome for each operation, by its position. -/
def outcomes (ops : List Operation) (status : Nat → Status) : List Outcome :=
  ops.zipIdx.map fun (op, i) => ⟨i, op.verb, op.path, status i⟩

/-- A patch of which nothing was tried or kept. -/
def rejected (doc : Value) (ops : List Operation) (issues : List Issue) : Result :=
  ⟨doc, false, outcomes ops fun _ => .skipped, issues⟩

/-- A patch that stopped at one of its operations. -/
def stopped (doc : Value) (ops : List Operation) (s : Stop) : Result :=
  ⟨doc, false,
   outcomes ops fun i =>
    if i < s.position then .applied else if i = s.position then .failed s.fault else .skipped,
   [⟨.fault s.fault, some s.path, some s.position⟩]⟩

/-- Applies a patch without a policy. -/
def applyFreely (doc : Value) (ops : List Operation) : Result :=
  match applyAll 0 doc ops with
  | .ok d => ⟨d, true, outcomes ops fun _ => .applied, []⟩
  | .error s => stopped doc ops s

/-- Applies a patch under a policy: the operations are checked in turn, then applied, and the
documents before and after are compared. -/
def applyUnder (policy : Policy) (doc : Value) (ops : List Operation) : Result :=
  match policy.checkInTurn 0 doc ops with
  | [] =>
    let result := applyFreely doc ops
    if result.applied then
      match policy.checkDocuments doc result.document with
      | [] => result
      | issues => rejected doc ops issues
    else result
  | issues => rejected doc ops issues

def apply (policy : Option Policy) (doc : Value) (ops : List Operation) : Result :=
  match policy with
  | some p => applyUnder p doc ops
  | none => applyFreely doc ops

end Patch

end Dashboards
