import Dashboards.Failure
import Dashboards.Json.Equality
import Dashboards.Patch.Operation
import Dashboards.Pointer

/-!
# Applying one operation

An operation is carried out step by step on a document. When a step fails, what the steps before it
did stays done: the containers created on the way to the target are there, and the source of a move
is gone. An `Attempt` is the document as it was left together with the fault, if there was one.
-/

namespace Dashboards

namespace Patch

/-- Why an operation cannot be carried out. An overlong index is no fault of the operation: the
whole patch is given up. -/
inductive Fault where
  | badPointer (fault : Pointer.Fault)
  | noSource
  | badIndex (key : String) (at_ : Pointer)
  | outOfBounds (index : Nat) (at_ : Pointer)
  | throughScalar (at_ : Pointer)
  | addToScalar (at_ : Pointer)
  | replaceInScalar (at_ : Pointer)
  | removeRoot
  | sourceMissing (at_ : Pointer)
  | intoDescendant (source target : Pointer)
  | testMissing (at_ : Pointer)
  | testMismatch (at_ : Pointer)
  | overlongIndex (digits : Nat)
  deriving DecidableEq

namespace Fault

def message : Fault → String
  | .badPointer fault => fault.message
  | .noSource => "Missing 'from' path"
  | .badIndex key p => s!"Invalid array index '{key}' in {p.text}"
  | .outOfBounds i p => s!"Array index {i} out of bounds in {p.text}"
  | .throughScalar p => s!"Cannot traverse into scalar value at {p.text}"
  | .addToScalar p => s!"Cannot add into scalar value at {p.text}"
  | .replaceInScalar p => s!"Cannot replace inside scalar value at {p.text}"
  | .removeRoot => "Cannot remove the document root"
  | .sourceMissing p => s!"'from' path {p.text} does not exist"
  | .intoDescendant a b => s!"Cannot move {a.text} into its own descendant {b.text}"
  | .testMissing p => s!"Test failed: {p.text} does not exist"
  | .testMismatch p => s!"Test failed: value at {p.text} does not match"
  | .overlongIndex digits => (Excess.longInteger digits).message

def code : Fault → ErrorCode
  | .badPointer _ | .noSource => .validationError
  | .overlongIndex _ => .internalError
  | _ => .patchError

def excess? : Fault → Option Excess
  | .overlongIndex digits => some (.longInteger digits)
  | _ => none

end Fault

/-- A document as an operation left it, and the fault that stopped the operation. -/
structure Attempt where
  document : Value
  fault : Option Fault

namespace Attempt

def done (d : Value) : Attempt := ⟨d, none⟩

/-- Goes on with the document unless a fault was met. -/
def andThen (a : Attempt) (next : Value → Attempt) : Attempt :=
  match a.fault with
  | none => next a.document
  | some _ => a

/-- The document of an attempt that met no fault. -/
def toExcept (a : Attempt) : Except Fault Value :=
  match a.fault with
  | none => .ok a.document
  | some f => .error f

end Attempt

/-- The array index that a key stands for. -/
def indexIn (p : Pointer) (key : String) : Except Fault Nat :=
  match overlongIndex? key, indexOf? key with
  | some digits, _ => .error (.overlongIndex digits)
  | none, some i => .ok i
  | none, none => .error (.badIndex key p)

/-- The container created where a member is missing on the way to `next`. -/
def containerFor (next : String) : Except Fault Value :=
  match overlongIndex? next with
  | some digits => .error (.overlongIndex digits)
  | none => .ok (if next = appendKey ∨ (indexOf? next).isSome then .arr [] else .obj [])

/-- Carries out `leaf` on the container of the last key, creating the members that are missing or
null on the way. -/
def descend (leaf : String → Value → Except Fault Value) (p : Pointer) :
    Value → List String → Attempt
  | doc, [] => .done doc
  | doc, [key] =>
    match leaf key doc with
    | .ok d => .done d
    | .error f => ⟨doc, some f⟩
  | .obj ms, key :: next :: rest =>
    -- A member that is null counts as missing; an item of an array does not.
    let child :=
      match Members.get? ms key with
      | none | some .null => containerFor next
      | some v => .ok v
    match child with
    | .error f => ⟨.obj ms, some f⟩
    | .ok child =>
      let a := descend leaf p child (next :: rest)
      ⟨.obj (Members.set ms key a.document), a.fault⟩
  | .arr xs, key :: next :: rest =>
    match indexIn p key with
    | .error f => ⟨.arr xs, some f⟩
    | .ok i =>
      match xs[i]? with
      | none => ⟨.arr xs, some (.outOfBounds i p)⟩
      | some child =>
        let a := descend leaf p child (next :: rest)
        ⟨.arr (xs.set i a.document), a.fault⟩
  -- A text, a number, a boolean or null has nothing below it.
  | doc, _ => ⟨doc, some (.throughScalar p)⟩
termination_by structural _ keys => keys

/-- Inserts into an array, appends to it, or sets a member. -/
def insertInto (p : Pointer) (v : Value) (key : String) : Value → Except Fault Value
  | .obj ms => .ok (.obj (Members.set ms key v))
  | .arr xs =>
    if key = appendKey then .ok (.arr (xs ++ [v]))
    else
      match indexIn p key with
      | .error f => .error f
      | .ok i => if i ≤ xs.length then .ok (.arr (xs.insertIdx i v)) else .error (.outOfBounds i p)
  | _ => .error (.addToScalar p)

/-- Overwrites an item that exists, or sets a member. -/
def overwriteIn (p : Pointer) (v : Value) (key : String) : Value → Except Fault Value
  | .obj ms => .ok (.obj (Members.set ms key v))
  | .arr xs =>
    match indexIn p key with
    | .error f => .error f
    | .ok i => if i < xs.length then .ok (.arr (xs.set i v)) else .error (.outOfBounds i p)
  | _ => .error (.replaceInScalar p)

/-- Adds `v` at `p`; at the root it becomes the document. -/
def add (p : Pointer) (v doc : Value) : Attempt :=
  if p.isRoot then .done v else descend (insertInto p v) p doc p.keys

/-- Replaces what is at `p` by `v`. -/
def replace (p : Pointer) (v doc : Value) : Attempt :=
  if p.isRoot then .done v else descend (overwriteIn p v) p doc p.keys

/-- Deletes the member or item that the keys lead to; where they lead nowhere nothing changes. -/
def eraseAt : Value → List String → Value
  | doc, [] => doc
  | .obj ms, [key] => .obj (Members.erase ms key)
  | .arr xs, [key] =>
    match indexOf? key with
    | some i => .arr (xs.eraseIdx i)
    | none => .arr xs
  | .obj ms, key :: next :: rest =>
    match Members.get? ms key with
    | some child => .obj (Members.set ms key (eraseAt child (next :: rest)))
    | none => .obj ms
  | .arr xs, key :: next :: rest =>
    match (indexOf? key).bind fun i => xs[i]?.map (i, ·) with
    | some (i, child) => .arr (xs.set i (eraseAt child (next :: rest)))
    | none => .arr xs
  | doc, _ => doc
termination_by structural _ keys => keys

def remove (p : Pointer) (doc : Value) : Attempt :=
  if p.isRoot then ⟨doc, some .removeRoot⟩
  else
    match doc.overlongAt? p.keys with
    | some digits => ⟨doc, some (.overlongIndex digits)⟩
    | none => .done (eraseAt doc p.keys)

/-- Goes on with what a step found, or leaves the document with its fault. -/
def withResult {α : Type} (doc : Value) (r : Except Fault α) (next : α → Attempt) : Attempt :=
  match r with
  | .ok a => next a
  | .error f => ⟨doc, some f⟩

def pointer (text : String) : Except Fault Pointer := (Pointer.parse text).mapError .badPointer

/-- The value that a pointer resolves to, if there is one. -/
def valueAt (p : Pointer) (doc : Value) : Except Fault (Option Value) :=
  match doc.overlongAt? p.keys with
  | some digits => .error (.overlongIndex digits)
  | none => .ok (doc.resolve? p)

/-- The pointer to the source of a move or a copy and the value there. -/
def sourceValue (op : Operation) (doc : Value) : Except Fault (Pointer × Value) := do
  let some text := op.source | throw .noSource
  let p ← pointer text
  match ← valueAt p doc with
  | some v => pure (p, v)
  | none => throw (.sourceMissing p)

/-- A move onto its own place changes nothing; into the moved value it is impossible. -/
def move (source target : Pointer) (v doc : Value) : Attempt :=
  if source = target then .done doc
  else if target.startsWith source then ⟨doc, some (.intoDescendant source target)⟩
  -- The source goes first, so an index of the target counts what is left.
  else (remove source doc).andThen (add target v)

def test (p : Pointer) (expected doc : Value) : Attempt :=
  withResult doc (valueAt p doc) fun
    | none => ⟨doc, some (.testMissing p)⟩
    | some v => if v.jsonEqual expected then .done doc else ⟨doc, some (.testMismatch p)⟩

end Patch

open Patch in
/-- Carries out an operation on a document. -/
def Operation.attempt (op : Operation) (doc : Value) : Attempt :=
  withResult doc (pointer op.path) fun target =>
    match op.verb with
    | .add => Patch.add target op.value doc
    | .remove => Patch.remove target doc
    | .replace => Patch.replace target op.value doc
    | .move => withResult doc (sourceValue op doc) fun (source, v) => Patch.move source target v doc
    | .copy => withResult doc (sourceValue op doc) fun (_, v) => Patch.add target v doc
    | .test => Patch.test target op.value doc

open Patch in
/-- What is copied for an operation: the value that it writes, or the source of a copy. -/
def Operation.copied? (op : Operation) (doc : Value) : Option Value :=
  match op.verb, pointer op.path with
  | .add, .ok _ | .replace, .ok _ => some op.value
  | .copy, .ok _ => (sourceValue op doc).toOption.map (·.2)
  | _, _ => none

/-- The document after an operation that can be carried out, or the fault. -/
def Operation.apply (op : Operation) (doc : Value) : Except Patch.Fault Value :=
  (op.attempt doc).toExcept

/-- The document that the checks of the following operations look at: what the operation did, also
when it did not get to its end. -/
def Operation.advance (op : Operation) (doc : Value) : Value := (op.attempt doc).document

/-- What is copied for the operations of a patch, each on what the ones before it have left. -/
def Patch.copiesFrom (doc : Value) : List Operation → List Value
  | [] => []
  | op :: rest => (op.copied? doc).toList ++ copiesFrom (op.advance doc) rest

/-- What is copied to try a patch on a document: the document itself, and what the operations need. -/
def Patch.copies (doc : Value) (ops : List Operation) : List Value := doc :: copiesFrom doc ops

end Dashboards
